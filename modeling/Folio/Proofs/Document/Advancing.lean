import Folio.Proofs.Document.Block
import Folio.Proofs.Document.ClaimForm
import Folio.Proofs.Document.Metadata
import Folio.Proofs.Document.Standard

namespace Folio

namespace Segment

variable {r : Registry} {lines : List Text}

/-- A claim takes its own line at least. -/
theorem ClaimForm.jumped_pos {i : Nat} {c : Claim} (h : ClaimForm r lines i c) : 0 < c.jumped := by
  cases h with
  | flag _ => exact Nat.one_pos
  | importing _ => exact Nat.one_pos
  | definition _ => exact Nat.one_pos
  | metadata hcapture =>
    obtain ⟨_, _, _, _, _, rfl⟩ := Frontmatter.capture?_eq_some_iff.1 hcapture
    exact Nat.add_pos_left Nat.one_pos _
  | block _ _ _ => exact Nat.add_pos_left Nat.one_pos _
  | directive _ _ _ => exact Nat.one_pos
  | captioned _ _ _ _ => exact Nat.two_pos

/-- No claim goes past the last line. -/
theorem ClaimForm.end_le {i : Nat} {c : Claim} (h : ClaimForm r lines i c) (hi : i < lines.length)
    (hlines : ∀ l ∈ lines, '\n' ∉ l) : i + c.jumped ≤ lines.length := by
  cases h with
  | flag _ => exact hi
  | importing _ => exact hi
  | definition _ => exact hi
  | directive _ _ _ => exact hi
  | metadata hcapture =>
    have hspanned := Frontmatter.capture?_spanned (fun l hl => hlines l (List.mem_of_mem_drop hl))
      hcapture
    rw [List.length_drop] at hspanned
    dsimp only
    omega
  | block _ _ _ =>
    have hspanned : (Lines.block (lines.drop (i + 1))).2 ≤ 0 + (lines.drop (i + 1)).length :=
      Lines.blockAfter_spanned 0 _
    rw [List.length_drop] at hspanned
    dsimp only
    omega
  | captioned _ _ hnext _ =>
    -- the line of the alternative text is there
    exact (List.getElem?_eq_some_iff.1 hnext).1

theorem claimAt?_end_le (hr : r.Standard) (hlines : ∀ l ∈ lines, '\n' ∉ l) {i : Nat} {c : Claim}
    (hi : i < lines.length) (hc : claimAt? r lines i = some c) :
    i + max 1 c.jumped ≤ lines.length := by
  have hform := claimForm_of_claimAt? hr hc
  rw [Nat.max_eq_right hform.jumped_pos]
  exact hform.end_le hi hlines

theorem warnings_startingAt (hr : r.Standard) (hlines : ∀ l ∈ lines, '\n' ∉ l) (i : Nat) :
    (startingAt r lines i).flatMap warnings = [] := by
  -- on the number of lines left
  induction hk : lines.length - i using Nat.strongRecOn generalizing i with
  | _ k ih =>
    by_cases hlt : i < lines.length
    · by_cases hb : BlankAt lines i
      · rw [startingAt_blank hlt hb, List.flatMap_cons, ih _ (by omega) _ rfl]
        rfl
      · cases hc : claimAt? r lines i with
        | some c =>
          have hjumped : c.jumped ≠ 0 := Nat.ne_of_gt (claimForm_of_claimAt? hr hc).jumped_pos
          rw [startingAt_claimed hlt hb hc (.of_le (claimAt?_end_le hr hlines hlt hc)),
            List.flatMap_cons, ih _ (by omega) _ rfl, warnings, if_neg hjumped]
          rfl
        | none =>
          rw [startingAt_run hlt hb hc, List.flatMap_cons, ih _ (by omega) _ rfl]
          rfl
    · rw [startingAt_end (Nat.le_of_not_lt hlt)]
      rfl

/-- The tokens of a document are those of a tiling of its lines. -/
theorem exists_tiles_of_standard (hr : r.Standard) (source : Text) :
    ∃ ss, Tiles r (Text.lines source) 0 ss ∧
      (tokenize r source).value = ss.flatMap Stretch.tokens := by
  obtain ⟨ss, ht, hreads⟩ := exists_tiles r (Text.lines source) 0 (Nat.zero_le _)
  refine ⟨ss, ht, hreads.tokens ?_⟩
  rw [warnings_startingAt hr fun _ hl => Text.newline_not_mem_of_mem_lines hl]
  exact List.not_mem_nil

end Segment

variable {r : Registry}

/-- A directive that gives a node takes its token. -/
theorem Step.not_stalled (hr : r.Standard) {c : TokenCursor} {s : Step} (hs : at? r c = some s) :
    s.stalled = false := by
  unfold at? at hs
  obtain ⟨t, ht, rfl⟩ := Option.map_eq_some_iff.1 hs
  split
  · rfl
  · split
    · rename_i p hp
      unfold Registry.parse? at hp
      rw [ht] at hp
      obtain ⟨d, hd, hparse⟩ := List.exists_of_findSome?_eq_some hp
      rcases (hr d hd).parse_jumped hparse with hjumped | ⟨hjumped, -⟩ <;> simp [hjumped]
    · rfl

theorem parseFrom_log (hr : r.Standard) (ts : List Token) (i : Nat) :
    (parseFrom r ts i).log = [] := by
  -- on the number of tokens left
  induction hk : ts.length - i using Nat.strongRecOn generalizing i with
  | _ k ih =>
    rw [parseFrom]
    split
    · rfl
    · rename_i t ht
      split
      · rfl
      · rename_i s hs
        have hlt : i < ts.length := (List.getElem?_eq_some_iff.1 ht).1
        have hpos := Step.taken_pos hs
        dsimp only
        rw [if_pos (.of_le (at?_end_le hr hs)), Step.not_stalled hr hs,
          ih _ (by omega) (i + s.taken) rfl]
        rfl

/-- Reading the text of a document gives no warning. -/
theorem nodesOf_log (hr : r.Standard) (source : Text) : (nodesOf r source).log = [] := by
  have htokens : (tokenize r source).log = [] :=
    Segment.warnings_startingAt hr (fun _ hl => Text.newline_not_mem_of_mem_lines hl) 0
  have hnodes : (parseTokens r (tokenize r source).value).log = [] := parseFrom_log hr _ 0
  exact List.append_eq_nil_iff.2 ⟨htokens, hnodes⟩

end Folio
