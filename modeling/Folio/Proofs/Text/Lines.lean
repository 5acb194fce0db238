import Mathlib.Data.List.Infix
import Folio.Proofs.Text.Affix
import Folio.Proofs.Text.Split
import Folio.Proofs.Text.Trim

namespace Folio.Text

theorem isBlank_return : isBlank '\r' := by decide

theorem stripPrefix?_concat {p t : Text} {c : Char} (hc : c ∉ p) :
    stripPrefix? p (t ++ [c]) = (stripPrefix? p t).map (· ++ [c]) := by
  induction p generalizing t with
  | nil => rfl
  | cons d ds ih =>
    rw [List.mem_cons, not_or] at hc
    cases t with
    | nil => simp [stripPrefix?, Ne.symm hc.1]
    | cons e es =>
      rw [List.cons_append, stripPrefix?, stripPrefix?]
      split
      · exact ih hc.2
      · rfl

theorem stripSuffix?_eq_some_iff {p t before : Text} :
    stripSuffix? p t = some before ↔ t = before ++ p := by
  unfold stripSuffix?
  rw [Option.map_eq_some_iff]
  constructor
  · rintro ⟨r, hr, rfl⟩
    rw [stripPrefix?_eq_some_iff] at hr
    rw [← List.reverse_reverse t, hr, List.reverse_append, List.reverse_reverse]
  · rintro rfl
    exact ⟨before.reverse, stripPrefix?_eq_some_iff.2 List.reverse_append, List.reverse_reverse _⟩

/-- A line without its closing return is the line, or one character shorter. -/
theorem dropReturn_cases (t : Text) :
    dropReturn t = t ∨ t = dropReturn t ++ ['\r'] := by
  unfold dropReturn
  cases h : stripSuffix? ['\r'] t with
  | none => exact Or.inl rfl
  | some before => exact Or.inr (stripSuffix?_eq_some_iff.1 h)

theorem dropReturn_of_trimEnd {t : Text} (h : trimEnd t = t) : dropReturn t = t := by
  rcases dropReturn_cases t with hd | hd
  · exact hd
  · refine absurd isBlank_return (trimEnd_eq_self_iff.1 h '\r' ?_)
    rw [hd, List.getLast?_concat]
    rfl

theorem trim_dropReturn (t : Text) : trim (dropReturn t) = trim t := by
  rcases dropReturn_cases t with h | h
  · rw [h]
  · rw [← trim_concat isBlank_return, ← h]

/-- The lines of a text after which a line feed follows. -/
def ended (t : Text) : List Text := (splitOn '\n' t).map dropReturn

theorem lines_of_not_mem {t : Text} (hne : t ≠ []) (h : '\n' ∉ t) : lines t = [t] := by
  simp [lines, splitOn_of_not_mem h, hne]

theorem lines_append_cons (a b : Text) : lines (a ++ '\n' :: b) = ended a ++ lines b := by
  have hne := splitOn_ne_nil '\n' b
  unfold lines ended
  rw [splitOn_append_cons]
  dsimp only
  rw [List.dropLast_append_of_ne_nil hne, List.map_append, List.append_assoc,
    List.getLast?_append_of_ne_nil _ hne]

/-- Lines of a text that stands alone, and the same lines where a line feed follows. -/
inductive Closed : List Text → List Text → Prop
  | nil : Closed [] []
  | blank : Closed [] [[]]
  | last (l : Text) : Closed [l] [dropReturn l]
  | cons (l : Text) {ls ms : List Text} : Closed ls ms → Closed (l :: ls) (l :: ms)

theorem Closed.append_left (before : List Text) {ls ms : List Text} (h : Closed ls ms) :
    Closed (before ++ ls) (before ++ ms) := by
  induction before with
  | nil => exact h
  | cons l before ih => exact .cons l ih

theorem closed_ended (t : Text) : Closed (lines t) (ended t) := by
  obtain ⟨before, last, hs⟩ : ∃ before last, splitOn '\n' t = before ++ [last] :=
    ⟨_, _, (List.dropLast_concat_getLast (splitOn_ne_nil '\n' t)).symm⟩
  unfold lines ended
  rw [hs]
  simp only [List.dropLast_concat, List.getLast?_concat, List.map_append, List.map_singleton,
    Option.toList_some]
  refine Closed.append_left _ ?_
  -- alone, an empty last piece is no line
  by_cases hl : last = []
  · subst hl
    exact .blank
  · rw [List.filter_cons_of_pos (by simpa using hl)]
    exact .last last

theorem Closed.drop {ls ms : List Text} (h : Closed ls ms) {n : Nat} (hn : n ≤ ls.length) :
    Closed (ls.drop n) (ms.drop n) := by
  induction h generalizing n with
  | nil => simpa using Closed.nil
  | blank =>
    obtain rfl : n = 0 := Nat.le_zero.1 hn
    exact .blank
  | last l =>
    cases n with
    | zero => exact .last l
    | succ n => simpa using Closed.nil
  | cons l h ih =>
    cases n with
    | zero => exact .cons l h
    | succ n => exact ih (Nat.le_of_succ_le_succ hn)

theorem Closed.uncons {l : Text} {ls ms : List Text} (h : Closed (l :: ls) ms) :
    ∃ m ms', ms = m :: ms' ∧ trim m = trim l ∧ Closed ls ms' := by
  cases h with
  | last => exact ⟨_, _, rfl, trim_dropReturn l, .nil⟩
  | cons _ h => exact ⟨_, _, rfl, rfl, h⟩

theorem Closed.length_le {ls ms : List Text} (h : Closed ls ms) : ls.length ≤ ms.length := by
  induction h with
  | nil => exact Nat.le_refl _
  | blank => exact Nat.zero_le _
  | last l => exact Nat.le_refl _
  | cons l h ih => exact Nat.succ_le_succ ih

theorem exists_joinWith_cons (sep p : Text) (ps : List Text) :
    ∃ more, joinWith sep (p :: ps) = p ++ more := by
  by_cases hps : ps = []
  · subst hps
    exact ⟨[], (List.append_nil p).symm⟩
  · exact ⟨sep ++ joinWith sep ps, by rw [joinWith_cons hps, List.append_assoc]⟩

/-- Lines that go on start with the text that they were alone, but for a last return. -/
theorem Closed.joinWith_append {ls ms : List Text} (h : Closed ls ms) (sep first : Text)
    (after : List Text) :
    ∃ t more, joinWith sep (first :: (ms ++ after)) = t ++ more ∧
      (joinWith sep (first :: ls) = t ∨ joinWith sep (first :: ls) = t ++ ['\r']) := by
  induction h generalizing first with
  | nil =>
    obtain ⟨more, hmore⟩ := exists_joinWith_cons sep first ([] ++ after)
    exact ⟨first, more, hmore, Or.inl rfl⟩
  | blank =>
    obtain ⟨more, hmore⟩ := exists_joinWith_cons sep first ([[]] ++ after)
    exact ⟨first, more, hmore, Or.inl rfl⟩
  | last l =>
    obtain ⟨more, hmore⟩ := exists_joinWith_cons sep (dropReturn l) after
    refine ⟨first ++ sep ++ dropReturn l, more, ?_, ?_⟩
    · rw [List.singleton_append, joinWith_cons (by simp), hmore, List.append_assoc _ _ more]
    · rw [joinWith_cons (by simp)]
      rcases dropReturn_cases l with hl | hl
      · exact Or.inl (by rw [hl]; rfl)
      · refine Or.inr ?_
        rw [List.append_assoc _ _ ['\r'], ← hl]
        rfl
  | cons l h ih =>
    obtain ⟨t, more, hmore, ht⟩ := ih l
    refine ⟨first ++ sep ++ t, more, ?_, ?_⟩
    · rw [List.cons_append, joinWith_cons (by simp), hmore, List.append_assoc _ t more]
    · rw [joinWith_cons (by simp)]
      rcases ht with ht | ht
      · exact Or.inl (by rw [ht])
      · exact Or.inr (by rw [ht, List.append_assoc _ t])

theorem count_joinWith {sep : Char} {p : Text} {ps : List Text} (h : ∀ q ∈ p :: ps, sep ∉ q) :
    (joinWith [sep] (p :: ps)).count sep = ps.length := by
  induction ps generalizing p with
  | nil => exact List.count_eq_zero.2 (h p (by simp))
  | cons q qs ih =>
    have hp : p.count sep = 0 := List.count_eq_zero.2 (h p (by simp))
    rw [joinWith_cons (by simp), List.count_append, List.count_append, hp,
      ih fun r hr => h r (List.mem_cons_of_mem p hr), List.count_singleton_self, List.length_cons]
    omega

theorem length_splitOn (sep : Char) (t : Text) : (splitOn sep t).length = t.count sep + 1 := by
  obtain ⟨p, ps, hs⟩ := List.exists_cons_of_ne_nil (splitOn_ne_nil sep t)
  have hcount : (joinWith [sep] (splitOn sep t)).count sep = ps.length := by
    rw [hs]
    apply count_joinWith
    intro q hq
    rw [← hs] at hq
    exact not_mem_of_mem_splitOn hq
  rw [joinWith_splitOn] at hcount
  rw [hs, List.length_cons, hcount]

theorem not_mem_dropReturn {t : Text} {c : Char} (h : c ∉ t) : c ∉ dropReturn t := by
  rcases dropReturn_cases t with hd | hd
  · rwa [hd]
  · intro hm
    rw [hd] at h
    exact h (List.mem_append_left _ hm)

theorem newline_not_mem_of_mem_lines {t l : Text} (h : l ∈ lines t) : '\n' ∉ l := by
  unfold lines at h
  rcases List.mem_append.1 h with h | h
  · obtain ⟨p, hp, rfl⟩ := List.mem_map.1 h
    exact not_mem_dropReturn (not_mem_of_mem_splitOn (List.mem_of_mem_dropLast hp))
  · have hp := (List.mem_filter.1 h).1
    exact not_mem_of_mem_splitOn (List.mem_of_getLast? (Option.mem_toList.1 hp))

end Folio.Text
