import Folio.Proofs.Document.Advancing

namespace Folio

/-- The directives of the library look at no line before their own. -/
theorem Directive.Standard.claim_drop {d : Directive} (hd : d.Standard) (line : Text)
    (lines : List Text) (i : Nat) : d.claim line lines i = d.claim line (lines.drop i) 0 := by
  cases hd with
  | heading level => rfl
  | date => rfl
  | image =>
    unfold Directive.image
    simp only [List.getElem?_drop, Nat.zero_add]
  | markdown =>
    unfold Directive.markdown Directive.claimBlock
    simp only [List.drop_drop, Nat.zero_add]

namespace Segment

theorem lineAt_drop (lines : List Text) (i : Nat) : lineAt lines i = lineAt (lines.drop i) 0 := by
  rw [lineAt, lineAt, List.getElem?_drop, Nat.add_zero]

theorem lineAt_cons (l : Text) (ls : List Text) : lineAt (l :: ls) 0 = Text.trim l := rfl

variable {r : Registry}

theorem claimAt?_drop (hr : r.Standard) (lines : List Text) (i : Nat) :
    claimAt? r lines i = claimAt? r (lines.drop i) 0 := by
  have hdirectives : r.claim? (lineAt lines i) lines i =
      r.claim? (lineAt lines i) (lines.drop i) 0 := by
    unfold Registry.claim?
    rw [List.map_congr_left fun d hd => (hr d hd).claim_drop _ lines i]
  have hbuiltin : builtinClaim? (lineAt lines i) lines i =
      builtinClaim? (lineAt lines i) (lines.drop i) 0 := by
    unfold builtinClaim? Directive.claimBlock
    simp only [List.drop_drop, Nat.zero_add, Nat.add_zero]
  unfold claimAt?
  rw [hbuiltin, hdirectives, ← lineAt_drop]

theorem endsRun_drop (hr : r.Standard) (lines : List Text) (i : Nat) :
    endsRun r lines i = endsRun r (lines.drop i) 0 := by
  unfold endsRun
  rw [lineAt_drop, claimAt?_drop hr]

theorem runFrom_end {lines : List Text} {i : Nat} (h : lines.length ≤ i) :
    runFrom r lines i = [] := by
  unfold runFrom
  rw [if_neg (Nat.not_lt.2 h)]

theorem runFrom_step {lines : List Text} {i : Nat} (h : i < lines.length) :
    runFrom r lines i =
      if endsRun r lines i then [] else lineAt lines i :: runFrom r lines (i + 1) := by
  rw [runFrom.eq_def, if_pos h]

theorem runFrom_drop (hr : r.Standard) (lines : List Text) (i : Nat) :
    runFrom r lines i = runFrom r (lines.drop i) 0 := by
  -- the cut stays where it is while the index moves on
  suffices h : ∀ k, runFrom r lines (i + k) = runFrom r (lines.drop i) k from h 0
  intro k
  induction hm : lines.length - (i + k) generalizing k with
  | zero =>
    rw [runFrom_end (by omega), runFrom_end (by rw [List.length_drop]; omega)]
  | succ m ih =>
    have hlt' : k < (lines.drop i).length := by rw [List.length_drop]; omega
    have hends : endsRun r lines (i + k) = endsRun r (lines.drop i) k := by
      rw [endsRun_drop hr, endsRun_drop hr (lines.drop i), List.drop_drop]
    have hline : lineAt lines (i + k) = lineAt (lines.drop i) k := by
      rw [lineAt_drop, lineAt_drop (lines.drop i), List.drop_drop]
    rw [runFrom_step (by omega), runFrom_step hlt', hends, hline, Nat.add_assoc,
      ih (k + 1) (by omega)]

theorem startingAt_drop (hr : r.Standard) {lines : List Text} (hlines : ∀ l ∈ lines, '\n' ∉ l)
    (i : Nat) : startingAt r lines i = startingAt r (lines.drop i) 0 := by
  -- generalized to a second index, on the number of lines left
  suffices h : ∀ k, startingAt r lines (i + k) = startingAt r (lines.drop i) k from h 0
  intro k
  induction hm : lines.length - (i + k) using Nat.strongRecOn generalizing k with
  | _ m ih =>
    by_cases hlt : i + k < lines.length
    · have hlt' : k < (lines.drop i).length := by rw [List.length_drop]; omega
      have hline : lineAt lines (i + k) = lineAt (lines.drop i) k := by
        rw [lineAt_drop, lineAt_drop (lines.drop i), List.drop_drop]
      have hclaim : claimAt? r lines (i + k) = claimAt? r (lines.drop i) k := by
        rw [claimAt?_drop hr, claimAt?_drop hr (lines.drop i), List.drop_drop]
      have hrun : runFrom r lines (i + (k + 1)) = runFrom r (lines.drop i) (k + 1) := by
        rw [runFrom_drop hr, runFrom_drop hr (lines.drop i), List.drop_drop]
      have hblankAt : BlankAt lines (i + k) ↔ BlankAt (lines.drop i) k := by
        rw [BlankAt, BlankAt, hline]
      by_cases hb : BlankAt lines (i + k)
      · rw [startingAt_blank hlt hb, startingAt_blank hlt' (hblankAt.1 hb), Nat.add_assoc,
          ih _ (by omega) (k + 1) rfl]
      · have hb' := mt hblankAt.2 hb
        cases hc : claimAt? r lines (i + k) with
        | some c =>
          have hc' : claimAt? r (lines.drop i) k = some c := hclaim.symm.trans hc
          have hle := claimAt?_end_le hr hlines hlt hc
          have hle' := claimAt?_end_le hr (fun l hl => hlines l (List.mem_of_mem_drop hl)) hlt' hc'
          rw [startingAt_claimed hlt hb hc (.of_le hle), startingAt_claimed hlt' hb' hc' (.of_le hle'),
            hline, Nat.add_assoc, ih _ (by omega) (k + max 1 c.jumped) rfl]
        | none =>
          rw [startingAt_run hlt hb hc, startingAt_run hlt' hb' (hclaim ▸ hc), hline, Nat.add_assoc,
            hrun, Nat.add_assoc, ih _ (by omega) _ rfl]
    · rw [startingAt_end (Nat.le_of_not_lt hlt),
        startingAt_end (by rw [List.length_drop]; omega)]

/-- The tokens of lines. -/
def tokensOf (r : Registry) (lines : List Text) : List Token :=
  (startingAt r lines 0).flatMap Segment.tokens

variable {l : Text} {ls : List Text}

theorem tokensOf_nil : tokensOf r [] = [] := by
  rw [tokensOf, startingAt_end (Nat.le_refl 0)]
  rfl

theorem tokensOf_blank (hr : r.Standard) (hlines : ∀ m ∈ l :: ls, '\n' ∉ m) (h : Text.trim l = []) :
    tokensOf r (l :: ls) = tokensOf r ls := by
  have hblank : BlankAt (l :: ls) 0 := h
  rw [tokensOf, startingAt_blank (by simp) hblank, startingAt_drop hr hlines]
  rfl

theorem tokensOf_claimed (hr : r.Standard) (hlines : ∀ m ∈ l :: ls, '\n' ∉ m) {c : Claim}
    (h : Text.trim l ≠ []) (hc : claimAt? r (l :: ls) 0 = some c) :
    tokensOf r (l :: ls) = c.tokens ++ tokensOf r ((l :: ls).drop (max 1 c.jumped)) := by
  have hblank : ¬ BlankAt (l :: ls) 0 := h
  have hlt : 0 < (l :: ls).length := Nat.succ_pos _
  rw [tokensOf, startingAt_claimed hlt hblank hc (.of_le (claimAt?_end_le hr hlines hlt hc)),
    startingAt_drop hr hlines, Nat.zero_add]
  rfl

theorem runFrom_cons (hr : r.Standard) :
    runFrom r (l :: ls) 0 = if endsRun r (l :: ls) 0 then [] else Text.trim l :: runFrom r ls 0 := by
  rw [runFrom_step (by simp), runFrom_drop hr]
  rfl

theorem tokensOf_run (hr : r.Standard) (hlines : ∀ m ∈ l :: ls, '\n' ∉ m) (h : Text.trim l ≠ [])
    (hc : claimAt? r (l :: ls) 0 = none) :
    tokensOf r (l :: ls) = ⟨Kind.text, Text.joinWith [' '] (Text.trim l :: runFrom r ls 0)⟩ ::
      tokensOf r (ls.drop (runFrom r ls 0).length) := by
  have hblank : ¬ BlankAt (l :: ls) 0 := h
  have hrun : runFrom r (l :: ls) (0 + 1) = runFrom r ls 0 := runFrom_drop hr _ _
  rw [tokensOf, startingAt_run (by simp) hblank hc, startingAt_drop hr hlines, hrun, Nat.zero_add,
    Nat.add_comm 1]
  rfl

end Segment
end Folio
