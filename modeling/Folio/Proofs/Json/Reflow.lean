import Folio.Proofs.Json.Values
import Folio.Proofs.Text.Lines

/-! Texts that lose blanks at the ends of their lines. Strings hold no line feeds, and no other token
holds blanks; so strings and numbers are read alike, and what is left has lost such blanks again. -/
namespace Folio.Json

open Text

/-- The end of a line: that of the text, or before a line feed. -/
def AtLineEnd (t : Text) : Prop := ∀ c ∈ t.head?, c = '\n'

/-- The second text is the first without some of the blanks at the ends of its lines. -/
inductive Reflow : Text → Text → Prop
  | nil : Reflow [] []
  | keep (c : Char) {s t : Text} : Reflow s t → Reflow (c :: s) (c :: t)
  | drop {c : Char} {s t : Text} : isBlank c → AtLineEnd t → Reflow s t → Reflow (c :: s) t

namespace Reflow

variable {s t : Text} {c : Char}

theorem eq_nil (h : Reflow [] t) : t = [] := by
  cases h
  rfl

theorem uncons (h : Reflow (c :: s) t) (hc : ¬ isBlank c) : ∃ t', t = c :: t' ∧ Reflow s t' := by
  cases h with
  | keep _ h => exact ⟨_, rfl, h⟩
  | drop hblank _ _ => exact absurd hblank hc

theorem blank_of_atLineEnd {r : Text} (h : AtLineEnd (c :: r)) : isBlank c := by
  obtain rfl := h c rfl
  decide

/-- No character but a blank comes to the front. -/
theorem not_cons (h : Reflow s t) (hc : ¬ isBlank c) (hs : ∀ r, s = c :: r → False) :
    ∀ r, t = c :: r → False := by
  rintro r rfl
  cases h with
  | keep _ h => exact hs _ rfl
  | drop _ hend _ => exact hc (blank_of_atLineEnd hend)

theorem span {test : Char → Bool} (htest : ∀ c, isBlank c → ¬ test c) (h : Reflow s t) :
    t.takeWhile test = s.takeWhile test ∧ Reflow (s.dropWhile test) (t.dropWhile test) := by
  induction h with
  | nil => exact ⟨rfl, .nil⟩
  | keep c h ih =>
    by_cases hc : test c
    · simp only [List.takeWhile_cons_of_pos hc, List.dropWhile_cons_of_pos hc]
      exact ⟨congrArg _ ih.1, ih.2⟩
    · simp only [List.takeWhile_cons_of_neg hc, List.dropWhile_cons_of_neg hc]
      exact ⟨trivial, .keep c h⟩
  | @drop c s t hblank hend h ih =>
    have hstop : t.takeWhile test = [] ∧ t.dropWhile test = t := by
      cases t with
      | nil => exact ⟨rfl, rfl⟩
      | cons d ds =>
        have hd := htest d (blank_of_atLineEnd hend)
        exact ⟨List.takeWhile_cons_of_neg hd, List.dropWhile_cons_of_neg hd⟩
    rw [List.takeWhile_cons_of_neg (htest c hblank), List.dropWhile_cons_of_neg (htest c hblank),
      hstop.1, hstop.2]
    exact ⟨rfl, .drop hblank hend h⟩

/-- White space is passed over up to the same character. -/
theorem skipSpace {cs : Text} (h : Reflow s t) (hs : Json.skipSpace s = c :: cs)
    (hc : ¬ isBlank c) : ∃ cs', Json.skipSpace t = c :: cs' ∧ Reflow cs cs' := by
  induction h with
  | nil => cases hs
  | keep d h ih =>
    by_cases hd : isSpace d
    · rw [Json.skipSpace, List.dropWhile_cons_of_pos hd] at hs ⊢
      exact ih hs
    · rw [Json.skipSpace, List.dropWhile_cons_of_neg hd] at hs ⊢
      obtain ⟨rfl, rfl⟩ := List.cons.inj hs
      exact ⟨_, rfl, h⟩
  | @drop d s t hblank hend h ih =>
    by_cases hd : isSpace d
    · rw [Json.skipSpace, List.dropWhile_cons_of_pos hd] at hs
      exact ih hs
    · rw [Json.skipSpace, List.dropWhile_cons_of_neg hd] at hs
      obtain ⟨rfl, rfl⟩ := List.cons.inj hs
      exact absurd hblank hc

theorem skipSpace_nil (h : Reflow s t) (hs : Json.skipSpace s = []) : Json.skipSpace t = [] := by
  induction h with
  | nil => rfl
  | keep d h ih =>
    by_cases hd : isSpace d
    · rw [Json.skipSpace, List.dropWhile_cons_of_pos hd] at hs ⊢
      exact ih hs
    · rw [Json.skipSpace, List.dropWhile_cons_of_neg hd] at hs
      cases hs
  | @drop d s t hblank hend h ih =>
    refine ih ?_
    have hall := List.dropWhile_eq_nil_iff.1 hs
    exact List.dropWhile_eq_nil_iff.2 fun x hx => hall x (List.mem_cons_of_mem d hx)

/-- A part without blanks stays. -/
theorem uncons_append {w rest : Text} (hw : ∀ c ∈ w, ¬ isBlank c) (h : Reflow (w ++ rest) t) :
    ∃ t', t = w ++ t' ∧ Reflow rest t' := by
  induction w generalizing t with
  | nil => exact ⟨t, rfl, h⟩
  | cons c w ih =>
    obtain ⟨hc, hw⟩ := List.forall_mem_cons.1 hw
    obtain ⟨u, rfl, hu⟩ := h.uncons hc
    obtain ⟨t', rfl, h'⟩ := ih hw hu
    exact ⟨t', rfl, h'⟩

end Reflow

/-- A reader to which blanks at the ends of lines make no difference. -/
def Stable {α : Type} (read : Text → Reading α) : Prop :=
  ∀ s t x rest, Reflow s t → read s = .ok (x, rest) →
    ∃ rest', read t = .ok (x, rest') ∧ Reflow rest rest'

variable {α : Type}

theorem Stable.apply {read : Text → Reading α} (hread : Stable read) {s t rest : Text} {x : α}
    (h : Reflow s t) (hs : read s = .ok (x, rest)) :
    ∃ rest', read t = .ok (x, rest') ∧ Reflow rest rest' := hread s t x rest h hs

theorem Stable.map {β : Type} {read : Text → Reading α} (hread : Stable read) (f : α → β) :
    Stable fun s => (read s).map fun (x, rest) => (f x, rest) := by
  intro s t y rest h hs
  obtain ⟨⟨x, u⟩, hx, hy⟩ := map_eq_ok_iff.1 hs
  obtain ⟨rfl, rfl⟩ := Prod.mk.inj hy
  obtain ⟨rest', hrest, hflow⟩ := hread.apply h hx
  exact ⟨rest', map_eq_ok_iff.2 ⟨(x, rest'), hrest, rfl⟩, hflow⟩

theorem literal_stable {w : Text} (hw : w.all fun c => !isBlank c) (x : α) :
    Stable fun s => (literal w s).map fun rest => (x, rest) := by
  intro s t y rest h hs
  obtain ⟨u, hu, hy⟩ := map_eq_ok_iff.1 hs
  obtain ⟨rfl, rfl⟩ := Prod.mk.inj hy
  have hblank : ∀ c ∈ w, ¬ isBlank c := fun c hc => by simpa using List.all_eq_true.1 hw c hc
  obtain rfl := literal_eq_ok_iff.1 hu
  obtain ⟨rest', rfl, hflow⟩ := h.uncons_append hblank
  exact ⟨rest', map_eq_ok_iff.2 ⟨rest', literal_eq_ok_iff.2 rfl, rfl⟩, hflow⟩

theorem readColon_reflow {s t rest : Text} (h : Reflow s t) (hs : readColon s = .ok rest) :
    ∃ rest', readColon t = .ok rest' ∧ Reflow rest rest' := by
  unfold readColon at hs
  split at hs
  · cases hs
  · rename_i c cs hskip
    split at hs
    · rename_i hc
      obtain rfl := Except.ok.inj hs
      subst hc
      obtain ⟨cs', ht, hflow⟩ := h.skipSpace hskip (by decide)
      exact ⟨cs', by rw [readColon, ht]; exact if_pos rfl, hflow⟩
    · cases hs

theorem not_isBlank_of_range {c : Char} (hlow : 33 ≤ c.toNat) (hhigh : c.toNat ≤ 126) :
    ¬ isBlank c := by
  simp only [isBlank, blankRanges, List.any_cons, List.any_nil, Bool.or_eq_true, Bool.and_eq_true,
    decide_eq_true_eq, Bool.false_eq_true, or_false]
  omega

theorem not_isDigit_of_isBlank (c : Char) (h : isBlank c) : ¬ isDigit c := by
  intro hd
  simp only [isDigit, Char.isDigit, Bool.and_eq_true, decide_eq_true_eq, ge_iff_le,
    UInt32.le_iff_toNat_le] at hd
  have hlow : 48 ≤ c.toNat := hd.1
  have hhigh : c.toNat ≤ 57 := hd.2
  exact not_isBlank_of_range (by omega) (by omega) h

theorem readEscape_stable : Stable readEscape := by
  intro s t x rest h hs
  obtain ⟨part, hspells, rfl⟩ := readEscape_eq_ok_iff.1 hs
  obtain ⟨rest', rfl, hflow⟩ := h.uncons_append hspells.not_isBlank
  exact ⟨rest', readEscape_eq_ok_iff.2 ⟨part, hspells, rfl⟩, hflow⟩

/-- No string goes on over the end of a line. -/
theorem readStringBody_of_atLineEnd {t rest xs : Text} (h : AtLineEnd t) :
    readStringBody t ≠ .ok (xs, rest) := by
  intro ht
  rcases readStringBody_eq_ok_iff.1 ht with ⟨rfl, -⟩ | ⟨cs, _, _, _, rfl, -⟩ |
    ⟨c, cs, _, rfl, -, -, hcontrol, -⟩
  · exact absurd (h '"' rfl) (by decide)
  · exact absurd (h '\\' rfl) (by decide)
  · obtain rfl := h c rfl
    exact hcontrol (by decide)

theorem readStringBody_stable : Stable readStringBody := by
  intro s
  -- on the length, as for the part that a string takes
  induction hk : s.length using Nat.strongRecOn generalizing s with
  | _ k ih =>
    intro t xs rest h hs
    rcases readStringBody_eq_ok_iff.1 hs with ⟨rfl, rfl⟩ | ⟨cs, x, u, ys, rfl, hx, hu, rfl⟩ |
      ⟨c, cs, ys, rfl, hq, hb, hcontrol, hcs, rfl⟩
    · obtain ⟨t', rfl, h'⟩ := h.uncons (by decide)
      exact ⟨t', readStringBody_eq_ok_iff.2 (Or.inl ⟨rfl, rfl⟩), h'⟩
    · have hlt := readEscape_length hx
      rw [List.length_cons] at hk
      obtain ⟨t', rfl, h'⟩ := h.uncons (by decide)
      obtain ⟨u', hu', hflow⟩ := readEscape_stable.apply h' hx
      obtain ⟨rest', hrest, hflow'⟩ := ih u.length (by omega) u rfl _ _ _ hflow hu
      exact ⟨rest', readStringBody_eq_ok_iff.2 (Or.inr (Or.inl
        ⟨t', x, u', ys, rfl, hu', hrest, rfl⟩)), hflow'⟩
    · rw [List.length_cons] at hk
      have hrec := ih cs.length (by omega) cs rfl
      cases h with
      | keep _ h =>
        obtain ⟨rest', hrest, hflow⟩ := hrec _ _ _ h hcs
        exact ⟨rest', readStringBody_eq_ok_iff.2 (Or.inr (Or.inr
          ⟨c, _, ys, rfl, hq, hb, hcontrol, hrest, rfl⟩)), hflow⟩
      | drop _ hend h =>
        -- the string would go on after the end of the line
        obtain ⟨rest', hrest, _⟩ := hrec _ _ _ h hcs
        exact absurd hrest (readStringBody_of_atLineEnd hend)

/-- Where no digit comes next, the digits of an exponent end. -/
theorem exponentDigits_end {v : Nat} {t : Text} (h : t.takeWhile isDigit = []) :
    exponentDigits v t = .ok (v, t) := by
  cases t with
  | nil => rfl
  | cons c cs =>
    have hc : ¬ isDigit c := fun hc => by simp [hc] at h
    rw [exponentDigits, if_neg hc]

theorem exponentDigits_reflow {v e : Nat} {s t rest : Text} (h : Reflow s t)
    (hs : exponentDigits v s = .ok (e, rest)) :
    ∃ rest', exponentDigits v t = .ok (e, rest') ∧ Reflow rest rest' := by
  induction s generalizing v t with
  | nil =>
    obtain rfl := h.eq_nil
    exact ⟨rest, hs, by cases hs; exact .nil⟩
  | cons c cs ih =>
    rw [exponentDigits] at hs
    by_cases hc : isDigit c
    · obtain ⟨t', rfl, h'⟩ := h.uncons fun hblank => not_isDigit_of_isBlank c hblank hc
      rw [if_pos hc] at hs
      dsimp only at hs
      split at hs
      · rename_i hle
        obtain ⟨rest', hrest, hflow⟩ := ih h' hs
        refine ⟨rest', ?_, hflow⟩
        rw [exponentDigits, if_pos hc]
        dsimp only
        rw [if_pos hle, hrest]
      · cases hs
    · rw [if_neg hc] at hs
      obtain ⟨rfl, rfl⟩ := Prod.mk.inj (Except.ok.inj hs)
      have hend : t.takeWhile isDigit = [] := by
        rw [(h.span not_isDigit_of_isBlank).1, List.takeWhile_cons_of_neg hc]
      exact ⟨t, exponentDigits_end hend, h⟩

theorem exponentDigits_error_reflow {v : Nat} {s t rest : Text} (h : Reflow s t)
    (hs : exponentDigits v s = .error rest) :
    ∃ rest', exponentDigits v t = .error rest' ∧ Reflow rest rest' := by
  induction s generalizing v t with
  | nil => cases hs
  | cons c cs ih =>
    rw [exponentDigits] at hs
    by_cases hc : isDigit c
    · obtain ⟨t', rfl, h'⟩ := h.uncons fun hblank => not_isDigit_of_isBlank c hblank hc
      rw [if_pos hc] at hs
      dsimp only at hs
      split at hs
      · rename_i hle
        obtain ⟨rest', hrest, hflow⟩ := ih h' hs
        refine ⟨rest', ?_, hflow⟩
        rw [exponentDigits, if_pos hc]
        dsimp only
        rw [if_pos hle, hrest]
      · rename_i hle
        obtain rfl := Except.error.inj hs
        refine ⟨t', ?_, h'⟩
        rw [exponentDigits, if_pos hc]
        dsimp only
        rw [if_neg hle]
    · rw [if_neg hc] at hs
      cases hs

section Number

variable (negative : Bool) (significand : Nat)

theorem floatNumber_stable (exponent : Int) : Stable (floatNumber negative significand exponent) := by
  intro s t x rest h hs
  unfold floatNumber at hs
  split at hs
  · rename_i y hy
    obtain ⟨rfl, rfl⟩ := Prod.mk.inj (Except.ok.inj hs)
    exact ⟨t, by rw [floatNumber, hy], h⟩
  · cases hs

theorem exponentFrom_stable (start : Int) (down : Bool) :
    Stable (exponentFrom negative significand start down) := by
  intro s t x rest h hs
  unfold exponentFrom at hs
  cases he : exponentDigits 0 s with
  | ok found =>
    obtain ⟨e, u⟩ := found
    rw [he] at hs
    obtain ⟨u', hu, hflow⟩ := exponentDigits_reflow h he
    obtain ⟨rest', hrest, hflow'⟩ := (floatNumber_stable negative significand _).apply hflow hs
    exact ⟨rest', by rw [exponentFrom, hu]; exact hrest, hflow'⟩
  | error u =>
    simp only [he] at hs
    obtain ⟨u', hu, hflow⟩ := exponentDigits_error_reflow h he
    split at hs
    · cases hs
    · rename_i hzero
      obtain ⟨rfl, rfl⟩ := Prod.mk.inj (Except.ok.inj hs)
      refine ⟨u'.dropWhile isDigit, ?_, (hflow.span not_isDigit_of_isBlank).2⟩
      rw [exponentFrom, hu]
      exact if_neg hzero

theorem exponentValue_stable (start : Int) (down : Bool) :
    Stable (exponentValue negative significand start down) := by
  intro s t x rest h hs
  cases s with
  | nil => cases hs
  | cons c cs =>
    by_cases hc : isDigit c
    · have hvalue (ds : Text) : exponentValue negative significand start down (c :: ds) =
          exponentFrom negative significand start down (c :: ds) := by
        rw [exponentValue, if_neg (by simp [hc])]
        rfl
      obtain ⟨t', rfl, _⟩ := h.uncons fun hblank => not_isDigit_of_isBlank c hblank hc
      rw [hvalue] at hs ⊢
      exact (exponentFrom_stable negative significand start down).apply h hs
    · rw [exponentValue, if_pos (by simp [hc])] at hs
      cases hs

theorem exponentPart_stable (start : Int) : Stable (exponentPart negative significand start) := by
  intro s t x rest h hs
  unfold exponentPart at hs
  split at hs
  · obtain ⟨t', rfl, h'⟩ := h.uncons (by decide)
    exact (exponentValue_stable negative significand start false).apply h' hs
  · obtain ⟨t', rfl, h'⟩ := h.uncons (by decide)
    exact (exponentValue_stable negative significand start true).apply h' hs
  · rename_i hplus hminus
    unfold exponentPart
    split
    · exact (h.not_cons (by decide) hplus _ rfl).elim
    · exact (h.not_cons (by decide) hminus _ rfl).elim
    · exact (exponentValue_stable negative significand start false).apply h hs

theorem afterFraction_stable (exponent : Int) :
    Stable (afterFraction negative significand exponent) := by
  intro s t x rest h hs
  unfold afterFraction at hs
  split at hs
  · obtain ⟨t', rfl, h'⟩ := h.uncons (by decide)
    exact (exponentPart_stable negative significand exponent).apply h' hs
  · obtain ⟨t', rfl, h'⟩ := h.uncons (by decide)
    exact (exponentPart_stable negative significand exponent).apply h' hs
  · rename_i hlower hupper
    unfold afterFraction
    split
    · exact (h.not_cons (by decide) hlower _ rfl).elim
    · exact (h.not_cons (by decide) hupper _ rfl).elim
    · exact (floatNumber_stable negative significand exponent).apply h hs

theorem fractionPart_stable (dropped : Nat) :
    Stable (fractionPart negative significand dropped) := by
  intro s t x rest h hs
  by_cases hdigits : (s.takeWhile isDigit).isEmpty
  · rw [fractionPart, if_pos hdigits] at hs
    cases hs
  · obtain ⟨htake, hflow⟩ := h.span not_isDigit_of_isBlank
    rw [fractionPart_eq negative significand dropped hdigits] at hs
    rw [fractionPart_eq negative significand dropped (by rwa [htake]), htake]
    exact (afterFraction_stable negative _ _).apply hflow hs

theorem afterWhole_stable (dropped : Nat) : Stable (afterWhole negative significand dropped) := by
  intro s t x rest h hs
  unfold afterWhole at hs
  split at hs
  · obtain ⟨t', rfl, h'⟩ := h.uncons (by decide)
    exact (fractionPart_stable negative significand dropped).apply h' hs
  · obtain ⟨t', rfl, h'⟩ := h.uncons (by decide)
    exact (exponentPart_stable negative significand dropped).apply h' hs
  · obtain ⟨t', rfl, h'⟩ := h.uncons (by decide)
    exact (exponentPart_stable negative significand dropped).apply h' hs
  · rename_i hpoint hlower hupper
    unfold afterWhole
    split
    · exact (h.not_cons (by decide) hpoint _ rfl).elim
    · exact (h.not_cons (by decide) hlower _ rfl).elim
    · exact (h.not_cons (by decide) hupper _ rfl).elim
    · by_cases hd : dropped = 0
      · rw [if_pos hd] at hs ⊢
        obtain ⟨rfl, rfl⟩ := Prod.mk.inj (Except.ok.inj hs)
        exact ⟨t, rfl, h⟩
      · rw [if_neg hd] at hs ⊢
        exact (floatNumber_stable negative significand dropped).apply h hs

/-- A zero stands alone before the point. -/
theorem readNumber_zero_eq_ok_iff {cs : Text} {r : Number × Text} :
    readNumber negative ('0' :: cs) = .ok r ↔
      cs.takeWhile isDigit = [] ∧ afterWhole negative 0 0 cs = .ok r := by
  rw [readNumber.eq_def]
  cases cs with
  | nil => simp
  | cons d ds => by_cases hd : isDigit d <;> simp [hd]

theorem readNumber_digits {c : Char} (hzero : c ≠ '0') (hc : isDigit c) (cs : Text) :
    readNumber negative (c :: cs) =
      afterWhole negative (absorb 0 ((c :: cs).takeWhile isDigit)).1
        (absorb 0 ((c :: cs).takeWhile isDigit)).2.length ((c :: cs).dropWhile isDigit) := by
  rw [readNumber.eq_def]
  simp only [if_neg hzero, if_pos hc]

theorem readNumber_stable : Stable (readNumber negative) := by
  intro s t x rest h hs
  cases s with
  | nil => cases hs
  | cons c cs =>
    by_cases hc : isDigit c
    · obtain ⟨t', rfl, h'⟩ := h.uncons fun hblank => not_isDigit_of_isBlank c hblank hc
      by_cases hzero : c = '0'
      · subst hzero
        obtain ⟨hnone, hs⟩ := (readNumber_zero_eq_ok_iff negative).1 hs
        obtain ⟨rest', hrest, hflow⟩ := (afterWhole_stable negative 0 0).apply h' hs
        have hnone' : t'.takeWhile isDigit = [] := by
          rw [(h'.span not_isDigit_of_isBlank).1, hnone]
        exact ⟨rest', (readNumber_zero_eq_ok_iff negative).2 ⟨hnone', hrest⟩, hflow⟩
      · obtain ⟨htake, hflow⟩ := h.span not_isDigit_of_isBlank
        rw [readNumber_digits negative hzero hc] at hs ⊢
        rw [htake]
        exact (afterWhole_stable negative _ _).apply hflow hs
    · have hzero : c ≠ '0' := fun hzero => hc (by rw [hzero]; decide)
      rw [readNumber.eq_def] at hs
      simp only [if_neg hzero, if_neg hc] at hs
      cases hs

end Number

end Folio.Json
