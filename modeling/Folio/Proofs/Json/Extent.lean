import Folio.Json.Reader
import Folio.Proofs.Text.Affix

namespace Folio.Json

variable {α : Type}

/-- A reader takes a part for a value where the rest starts with `next`. -/
def Takes (read : Text → Reading α) (part : Text) (x : α) (next : Option Char) : Prop :=
  ∀ rest, rest.head? = next → read (part ++ rest) = .ok (x, rest)

/-- Whatever a reader reads, it takes a part for. -/
def Local (read : Text → Reading α) : Prop :=
  ∀ s x rest, read s = .ok (x, rest) → ∃ part, s = part ++ rest ∧ Takes read part x rest.head?

theorem Local.takes {read : Text → Reading α} (hread : Local read) {s rest : Text} {x : α}
    (h : read s = .ok (x, rest)) : ∃ part, s = part ++ rest ∧ Takes read part x rest.head? :=
  hread s x rest h

theorem head?_append_congr (part : Text) {rest rest' : Text} (h : rest'.head? = rest.head?) :
    (part ++ rest').head? = (part ++ rest).head? := by
  rw [List.head?_append, List.head?_append, h]

theorem eq_nil_of_head? {rest : Text} (h : rest.head? = ([] : Text).head?) : rest = [] :=
  List.head?_eq_none_iff.1 h

theorem exists_cons_of_head? {rest : Text} {c : Char} {cs : Text}
    (h : rest.head? = (c :: cs).head?) : ∃ ds, rest = c :: ds :=
  List.head?_eq_some_iff.1 h

theorem not_cons_of_head? {s t : Text} {c : Char} (hs : ∀ r, s = c :: r → False)
    (ht : t.head? = s.head?) : ∀ r, t = c :: r → False := by
  rintro r rfl
  obtain ⟨u, hu⟩ := exists_cons_of_head? ht.symm
  exact hs u hu

/-- A run of characters that pass a test ends where it did. -/
theorem span_append (test : Char → Bool) (s : Text) {rest : Text}
    (h : rest.head? = (s.dropWhile test).head?) :
    (s.takeWhile test ++ rest).takeWhile test = s.takeWhile test ∧
      (s.takeWhile test ++ rest).dropWhile test = rest := by
  have hall : ∀ c ∈ s.takeWhile test, test c := fun c hc =>
    List.all_eq_true.1 List.all_takeWhile c hc
  have hstop : rest.takeWhile test = [] ∧ rest.dropWhile test = rest := by
    cases rest with
    | nil => exact ⟨rfl, rfl⟩
    | cons c cs =>
      have hnot := List.head?_dropWhile_not test s
      rw [← h] at hnot
      simp only [List.head?_cons] at hnot
      simp [hnot]
  rw [List.takeWhile_append_of_pos hall, List.dropWhile_append_of_pos hall, hstop.1, hstop.2,
    List.append_nil]
  exact ⟨rfl, rfl⟩

/-- A first character may be taken before another reader goes on. -/
theorem Takes.cons {read inner : Text → Reading α} {c : Char} {part : Text} {x : α}
    {next : Option Char} (h : Takes inner part x next) (hread : ∀ r, read (c :: r) = inner r) :
    Takes read (c :: part) x next := fun rest hr => (hread (part ++ rest)).trans (h rest hr)

/-- Another reader may go on from the start because of the first character that it finds there. -/
theorem Takes.of_head {read inner : Text → Reading α} {s part rest : Text} {x : α}
    (h : Takes inner part x rest.head?) (hs : s = part ++ rest)
    (hread : ∀ t, t.head? = s.head? → read t = inner t) : Takes read part x rest.head? := by
  intro rest' hr
  rw [hread _ (by rw [hs]; exact head?_append_congr _ hr)]
  exact h rest' hr

theorem skipSpace_eq_cons_iff {s cs : Text} {c : Char} :
    skipSpace s = c :: cs ↔
      ∃ space, s = space ++ c :: cs ∧ (∀ x ∈ space, isSpace x) ∧ ¬ isSpace c := by
  constructor
  · intro h
    refine ⟨s.takeWhile isSpace, ?_, fun x hx => List.all_eq_true.1 List.all_takeWhile x hx, ?_⟩
    · rw [← h, skipSpace, List.takeWhile_append_dropWhile]
    · have hnot := List.head?_dropWhile_not isSpace s
      rw [show s.dropWhile isSpace = c :: cs from h] at hnot
      simpa using hnot
  · rintro ⟨space, rfl, hspace, hc⟩
    rw [skipSpace, List.dropWhile_append_of_pos hspace, List.dropWhile_cons_of_neg hc]

/-- Blanks before a character are passed over whatever follows that character. -/
theorem skipSpace_local {s cs : Text} {c : Char} (h : skipSpace s = c :: cs) :
    ∃ space, s = space ++ c :: cs ∧ ∀ ds, skipSpace (space ++ c :: ds) = c :: ds := by
  obtain ⟨space, hs, hspace, hc⟩ := skipSpace_eq_cons_iff.1 h
  exact ⟨space, hs, fun ds => skipSpace_eq_cons_iff.2 ⟨space, rfl, hspace, hc⟩⟩

theorem literal_eq_ok_iff {w s rest : Text} : literal w s = .ok rest ↔ s = w ++ rest := by
  induction w generalizing s with
  | nil => simp [literal]
  | cons c cs ih =>
    cases s with
    | nil => simp [literal]
    | cons d ds =>
      rw [literal]
      by_cases hc : c = d
      · rw [if_pos hc, ih, hc, List.cons_append, List.cons_inj_right]
      · rw [if_neg hc]
        simp [Ne.symm hc]

theorem atEnd_eq_ok_iff {s : Text} : atEnd s = .ok () ↔ skipSpace s = [] := by
  unfold atEnd
  cases skipSpace s <;> simp

/-- A whole text is what its reader takes and white space. -/
theorem whole_eq_ok_iff {read : Text → Reading α} {s : Text} {x : α} :
    whole read s = .ok x ↔ ∃ rest, read s = .ok (x, rest) ∧ skipSpace rest = [] := by
  unfold whole
  cases hread : read s with
  | error e => simp
  | ok found =>
    obtain ⟨y, rest⟩ := found
    dsimp only
    cases hend : atEnd rest with
    | error e =>
      have hne : ¬ skipSpace rest = [] := fun h => by
        rw [atEnd_eq_ok_iff.2 h] at hend
        cases hend
      simp [hne]
    | ok u =>
      have hnil : skipSpace rest = [] := atEnd_eq_ok_iff.1 hend
      simp only [Except.ok.injEq, Prod.mk.injEq]
      constructor
      · intro h
        exact ⟨rest, ⟨h, rfl⟩, hnil⟩
      · rintro ⟨_, ⟨h, -⟩, -⟩
        exact h

theorem isBlank_of_isSpace {c : Char} (h : isSpace c) : Text.isBlank c := by
  simp only [isSpace, Bool.or_eq_true, decide_eq_true_eq] at h
  rcases h with ((rfl | rfl) | rfl) | rfl <;> decide

theorem readColon_local {s rest : Text} (h : readColon s = .ok rest) :
    ∃ part, s = part ++ rest ∧ ∀ rest', readColon (part ++ rest') = .ok rest' := by
  unfold readColon at h
  split at h
  · cases h
  · rename_i c cs hs
    split at h
    · rename_i hc
      obtain rfl := Except.ok.inj h
      obtain ⟨space, rfl, hspace⟩ := skipSpace_local hs
      refine ⟨space ++ [c], by simp, ?_⟩
      intro rest'
      rw [readColon, List.append_assoc, List.singleton_append, hspace]
      exact if_pos hc
    · cases h

theorem exponentDigits_ok {v e : Nat} {s rest : Text} (h : exponentDigits v s = .ok (e, rest)) :
    ∃ part, s = part ++ rest ∧
      ∀ rest', rest'.head? = rest.head? → exponentDigits v (part ++ rest') = .ok (e, rest') := by
  induction s generalizing v with
  | nil =>
    obtain ⟨rfl, rfl⟩ := Prod.mk.inj (Except.ok.inj h)
    refine ⟨[], rfl, ?_⟩
    intro rest' hr
    rw [eq_nil_of_head? hr]
    rfl
  | cons c cs ih =>
    rw [exponentDigits] at h
    by_cases hc : isDigit c
    · rw [if_pos hc] at h
      dsimp only at h
      split at h
      · rename_i hle
        obtain ⟨part, rfl, hpart⟩ := ih h
        refine ⟨c :: part, rfl, ?_⟩
        intro rest' hr
        rw [List.cons_append, exponentDigits, if_pos hc]
        dsimp only
        rw [if_pos hle, hpart rest' hr]
      · cases h
    · rw [if_neg hc] at h
      obtain ⟨rfl, rfl⟩ := Prod.mk.inj (Except.ok.inj h)
      refine ⟨[], rfl, ?_⟩
      intro rest' hr
      obtain ⟨ds, rfl⟩ := exists_cons_of_head? hr
      rw [List.nil_append, exponentDigits, if_neg hc]

theorem exponentDigits_error {v : Nat} {s rest : Text} (h : exponentDigits v s = .error rest) :
    ∃ part, s = part ++ rest ∧ ∀ rest', exponentDigits v (part ++ rest') = .error rest' := by
  induction s generalizing v with
  | nil => cases h
  | cons c cs ih =>
    rw [exponentDigits] at h
    by_cases hc : isDigit c
    · rw [if_pos hc] at h
      dsimp only at h
      split at h
      · rename_i hle
        obtain ⟨part, rfl, hpart⟩ := ih h
        refine ⟨c :: part, rfl, ?_⟩
        intro rest'
        rw [List.cons_append, exponentDigits, if_pos hc]
        dsimp only
        rw [if_pos hle, hpart rest']
      · rename_i hle
        obtain rfl := Except.error.inj h
        refine ⟨[c], rfl, ?_⟩
        intro rest'
        rw [List.singleton_append, exponentDigits, if_pos hc]
        dsimp only
        rw [if_neg hle]
    · rw [if_neg hc] at h
      cases h

section Number

variable (negative : Bool) (significand : Nat)

theorem floatNumber_local (exponent : Int) : Local (floatNumber negative significand exponent) := by
  intro s x rest h
  unfold floatNumber at h
  split at h
  · rename_i y hy
    obtain ⟨rfl, rfl⟩ := Prod.mk.inj (Except.ok.inj h)
    refine ⟨[], rfl, ?_⟩
    intro rest' _
    rw [List.nil_append, floatNumber, hy]
  · cases h

/-- An exponent from its first digit on. -/
def exponentFrom (start : Int) (down : Bool) (s : Text) : Reading Number :=
  match exponentDigits 0 s with
  | .ok (e, rest) => floatNumber negative significand (if down then start - e else start + e) rest
  | .error rest =>
    if significand ≠ 0 && !down then .error (failHere .numberOutOfRange rest)
    else .ok (.float (.zero negative), rest.dropWhile isDigit)

theorem exponentFrom_local (start : Int) (down : Bool) :
    Local (exponentFrom negative significand start down) := by
  intro s x rest h
  unfold exponentFrom at h
  cases he : exponentDigits 0 s with
  | ok found =>
    obtain ⟨e, t⟩ := found
    rw [he] at h
    obtain ⟨part, rfl, hpart⟩ := exponentDigits_ok he
    obtain ⟨part', rfl, htakes⟩ := (floatNumber_local negative significand _).takes h
    refine ⟨part ++ part', (List.append_assoc _ _ _).symm, ?_⟩
    intro rest' hr
    rw [List.append_assoc, exponentFrom, hpart _ (head?_append_congr _ hr)]
    exact htakes rest' hr
  | error t =>
    -- the exponent is too large to be counted, and the digits that are left are skipped
    simp only [he] at h
    obtain ⟨part, rfl, hpart⟩ := exponentDigits_error he
    split at h
    · cases h
    · rename_i hzero
      obtain ⟨rfl, rfl⟩ := Prod.mk.inj (Except.ok.inj h)
      refine ⟨part ++ t.takeWhile isDigit, ?_, fun rest' hr => ?_⟩
      · rw [List.append_assoc, List.takeWhile_append_dropWhile]
      · rw [List.append_assoc, exponentFrom, hpart]
        simp only [hzero, (span_append isDigit t hr).2]
        rfl

theorem exponentValue_local (start : Int) (down : Bool) :
    Local (exponentValue negative significand start down) := by
  intro s x rest h
  cases s with
  | nil => cases h
  | cons c cs =>
    by_cases hc : isDigit c
    · have hvalue (ds : Text) : exponentValue negative significand start down (c :: ds) =
          exponentFrom negative significand start down (c :: ds) := by
        rw [exponentValue, if_neg (by simp [hc])]
        rfl
      rw [hvalue] at h
      obtain ⟨part, hs, htakes⟩ := (exponentFrom_local negative significand start down).takes h
      -- what is taken starts with the digit
      refine ⟨part, hs, htakes.of_head hs ?_⟩
      intro t ht
      obtain ⟨ds, rfl⟩ := exists_cons_of_head? ht
      exact hvalue ds
    · rw [exponentValue, if_pos (by simp [hc])] at h
      cases h

theorem exponentPart_local (start : Int) : Local (exponentPart negative significand start) := by
  intro s x rest h
  unfold exponentPart at h
  split at h
  · obtain ⟨part, rfl, htakes⟩ := (exponentValue_local negative significand start false).takes h
    exact ⟨'+' :: part, rfl, htakes.cons fun r => rfl⟩
  · obtain ⟨part, rfl, htakes⟩ := (exponentValue_local negative significand start true).takes h
    exact ⟨'-' :: part, rfl, htakes.cons fun r => rfl⟩
  · rename_i hplus hminus
    obtain ⟨part, hs, htakes⟩ := (exponentValue_local negative significand start false).takes h
    refine ⟨part, hs, htakes.of_head hs ?_⟩
    intro t ht
    unfold exponentPart
    split
    · exact (not_cons_of_head? hplus ht _ rfl).elim
    · exact (not_cons_of_head? hminus ht _ rfl).elim
    · rfl

/-- A number from after the digits of its fraction on. -/
def afterFraction (exponent : Int) : Text → Reading Number
  | 'e' :: r => exponentPart negative significand exponent r
  | 'E' :: r => exponentPart negative significand exponent r
  | r => floatNumber negative significand exponent r

theorem afterFraction_local (exponent : Int) :
    Local (afterFraction negative significand exponent) := by
  intro s x rest h
  unfold afterFraction at h
  split at h
  · obtain ⟨part, rfl, htakes⟩ := (exponentPart_local negative significand exponent).takes h
    exact ⟨'e' :: part, rfl, htakes.cons fun r => rfl⟩
  · obtain ⟨part, rfl, htakes⟩ := (exponentPart_local negative significand exponent).takes h
    exact ⟨'E' :: part, rfl, htakes.cons fun r => rfl⟩
  · rename_i hlower hupper
    obtain ⟨part, hs, htakes⟩ := (floatNumber_local negative significand exponent).takes h
    refine ⟨part, hs, htakes.of_head hs ?_⟩
    intro t ht
    unfold afterFraction
    split
    · exact (not_cons_of_head? hlower ht _ rfl).elim
    · exact (not_cons_of_head? hupper ht _ rfl).elim
    · rfl

theorem fractionPart_eq (dropped : Nat) {s : Text} (h : ¬ (s.takeWhile isDigit).isEmpty) :
    fractionPart negative significand dropped s =
      afterFraction negative (absorb significand (s.takeWhile isDigit)).1
        (dropped - ((s.takeWhile isDigit).length -
          (absorb significand (s.takeWhile isDigit)).2.length : Nat)) (s.dropWhile isDigit) := by
  rw [fractionPart, if_neg h]
  rfl

theorem fractionPart_local (dropped : Nat) : Local (fractionPart negative significand dropped) := by
  intro s x rest h
  by_cases hdigits : (s.takeWhile isDigit).isEmpty
  · rw [fractionPart, if_pos hdigits] at h
    cases h
  · rw [fractionPart_eq negative significand dropped hdigits] at h
    obtain ⟨part, hs, htakes⟩ := (afterFraction_local negative _ _).takes h
    refine ⟨s.takeWhile isDigit ++ part, ?_, fun rest' hr => ?_⟩
    · rw [List.append_assoc, ← hs, List.takeWhile_append_dropWhile]
    · have hhead : (part ++ rest').head? = (s.dropWhile isDigit).head? := by
        rw [hs]
        exact head?_append_congr part hr
      obtain ⟨htake, hdrop⟩ := span_append isDigit s hhead
      rw [List.append_assoc, fractionPart_eq negative significand dropped (by rwa [htake]), htake,
        hdrop]
      exact htakes rest' hr

theorem afterWhole_local (dropped : Nat) : Local (afterWhole negative significand dropped) := by
  intro s x rest h
  unfold afterWhole at h
  -- a point, an exponent or the end; the first character of what follows tells which
  split at h
  · obtain ⟨part, rfl, htakes⟩ := (fractionPart_local negative significand dropped).takes h
    exact ⟨'.' :: part, rfl, htakes.cons fun r => rfl⟩
  · obtain ⟨part, rfl, htakes⟩ := (exponentPart_local negative significand dropped).takes h
    exact ⟨'e' :: part, rfl, htakes.cons fun r => rfl⟩
  · obtain ⟨part, rfl, htakes⟩ := (exponentPart_local negative significand dropped).takes h
    exact ⟨'E' :: part, rfl, htakes.cons fun r => rfl⟩
  · rename_i hpoint hlower hupper
    by_cases hd : dropped = 0
    · rw [if_pos hd] at h
      obtain ⟨rfl, rfl⟩ := Prod.mk.inj (Except.ok.inj h)
      refine ⟨[], rfl, ?_⟩
      intro t ht
      rw [List.nil_append]
      unfold afterWhole
      split
      · exact (not_cons_of_head? hpoint ht _ rfl).elim
      · exact (not_cons_of_head? hlower ht _ rfl).elim
      · exact (not_cons_of_head? hupper ht _ rfl).elim
      · rw [if_pos hd]
    · rw [if_neg hd] at h
      obtain ⟨part, hs, htakes⟩ := (floatNumber_local negative significand dropped).takes h
      refine ⟨part, hs, htakes.of_head hs ?_⟩
      intro t ht
      unfold afterWhole
      split
      · exact (not_cons_of_head? hpoint ht _ rfl).elim
      · exact (not_cons_of_head? hlower ht _ rfl).elim
      · exact (not_cons_of_head? hupper ht _ rfl).elim
      · rw [if_neg hd]

theorem readNumber_cons_local (c : Char) : Local fun cs => readNumber negative (c :: cs) := by
  intro cs x rest h
  dsimp only at h
  rw [readNumber.eq_def] at h
  by_cases hz : c = '0'
  · simp only [if_pos hz] at h
    -- a zero stands alone before the point
    have hafter : afterWhole negative 0 0 cs = .ok (x, rest) ∧ ∀ d ∈ cs.head?, ¬ isDigit d := by
      split at h
      · rename_i d ds
        split at h
        · cases h
        · rename_i hd
          exact ⟨h, by simpa using hd⟩
      · exact ⟨h, by simp⟩
    obtain ⟨part, rfl, htakes⟩ := (afterWhole_local negative 0 0).takes hafter.1
    refine ⟨part, rfl, ?_⟩
    intro rest' hr
    have hhead := head?_append_congr part hr
    dsimp only
    rw [readNumber.eq_def]
    simp only [if_pos hz]
    split
    · rename_i d ds hds
      rw [if_neg (hafter.2 d (by rw [← hhead, hds]; rfl))]
      exact htakes rest' hr
    · rename_i hnil
      rw [← hnil]
      exact htakes rest' hr
  · simp only [if_neg hz] at h
    by_cases hc : isDigit c
    · rw [if_pos hc] at h
      have hdigits (ds : Text) : (c :: ds).takeWhile isDigit = c :: ds.takeWhile isDigit :=
        List.takeWhile_cons_of_pos hc
      have hrest (ds : Text) : (c :: ds).dropWhile isDigit = ds.dropWhile isDigit :=
        List.dropWhile_cons_of_pos hc
      rw [hdigits, hrest] at h
      generalize habsorb : absorb 0 (c :: cs.takeWhile isDigit) = absorbed at h
      obtain ⟨kept, left⟩ := absorbed
      obtain ⟨part, hs, htakes⟩ := (afterWhole_local negative kept left.length).takes h
      refine ⟨cs.takeWhile isDigit ++ part, ?_, fun rest' hr => ?_⟩
      · rw [List.append_assoc, ← hs, List.takeWhile_append_dropWhile]
      · have hhead : (part ++ rest').head? = (cs.dropWhile isDigit).head? := by
          rw [hs]
          exact head?_append_congr part hr
        obtain ⟨htake, hdrop⟩ := span_append isDigit cs hhead
        dsimp only
        rw [readNumber.eq_def]
        simp only [if_neg hz, if_pos hc]
        rw [hdigits, hrest, List.append_assoc, htake, hdrop, habsorb]
        exact htakes rest' hr
    · rw [if_neg hc] at h
      cases h

theorem readNumber_local : Local (readNumber negative) := by
  intro s x rest h
  cases s with
  | nil => cases h
  | cons c cs =>
    obtain ⟨part, rfl, htakes⟩ := (readNumber_cons_local negative c).takes h
    exact ⟨c :: part, rfl, htakes⟩

end Number

end Folio.Json
