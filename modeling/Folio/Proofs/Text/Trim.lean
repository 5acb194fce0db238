import Mathlib.Data.List.Basic
import Mathlib.Data.List.TakeWhile
import Folio.Text.Basic

namespace Folio.Text

variable {t : Text}

theorem trimEnd_concat {t : Text} {c : Char} (hc : isBlank c) : trimEnd (t ++ [c]) = trimEnd t := by
  rw [trimEnd, List.reverse_append, List.reverse_singleton, List.singleton_append,
    List.dropWhile_cons_of_pos hc, trimEnd]

theorem trim_concat {t : Text} {c : Char} (hc : isBlank c) : trim (t ++ [c]) = trim t := by
  unfold trim trimStart
  cases ht : t.dropWhile isBlank with
  | nil =>
    -- all is blank, and the new character is one more blank
    have hall : ∀ x ∈ t, isBlank x := List.dropWhile_eq_nil_iff.1 ht
    rw [List.dropWhile_append_of_pos hall, List.dropWhile_cons_of_pos hc]
    rfl
  | cons d ds =>
    have hne : t.dropWhile isBlank ≠ [] := by simp [ht]
    rw [List.dropWhile_append, if_neg (by simpa using hne), ht, trimEnd_concat hc]

theorem trimEnd_prepend (a b : Text) :
    trimEnd (a ++ b) = if trimEnd b = [] then trimEnd a else a ++ trimEnd b := by
  unfold trimEnd
  rw [List.reverse_append, List.dropWhile_append]
  by_cases hb : b.reverse.dropWhile isBlank = []
  · simp [hb]
  · have hne : ¬ (b.reverse.dropWhile isBlank).isEmpty := by simpa using hb
    rw [if_neg hne, if_neg (by simpa using hb), List.reverse_append, List.reverse_reverse]

theorem trim_eq_nil {t : Text} (h : ∀ c ∈ t, isBlank c) : trim t = [] := by
  rw [trim, trimStart, List.dropWhile_eq_nil_iff.2 h]
  rfl

theorem trimEnd_eq_nil_iff : trimEnd t = [] ↔ ∀ c ∈ t, isBlank c := by
  rw [trimEnd, List.reverse_eq_nil_iff, List.dropWhile_eq_nil_iff]
  simp

theorem mem_of_mem_trim {t : Text} {c : Char} (h : c ∈ trim t) : c ∈ t := by
  unfold trim trimEnd trimStart at h
  rw [List.mem_reverse] at h
  have h := List.mem_reverse.1 ((List.dropWhile_sublist isBlank).subset h)
  exact (List.dropWhile_sublist isBlank).subset h

theorem exists_trimStart (t : Text) :
    ∃ blanks, t = blanks ++ trimStart t ∧ ∀ c ∈ blanks, isBlank c :=
  ⟨t.takeWhile isBlank, List.takeWhile_append_dropWhile.symm,
    fun c hc => List.all_eq_true.1 List.all_takeWhile c hc⟩

theorem exists_trimEnd (t : Text) : ∃ blanks, t = trimEnd t ++ blanks ∧ ∀ c ∈ blanks, isBlank c := by
  obtain ⟨blanks, ht, hblanks⟩ := exists_trimStart t.reverse
  refine ⟨blanks.reverse, ?_, fun c hc => hblanks c (List.mem_reverse.1 hc)⟩
  rw [trimEnd, ← List.reverse_append, ← trimStart, ← ht, List.reverse_reverse]

/-- A text is its trimmed part between blanks. -/
theorem exists_trim (t : Text) : ∃ lead trail, t = lead ++ trim t ++ trail ∧
    (∀ c ∈ lead, isBlank c) ∧ ∀ c ∈ trail, isBlank c := by
  obtain ⟨lead, hstart, hlead⟩ := exists_trimStart t
  obtain ⟨trail, hend, htrail⟩ := exists_trimEnd (trimStart t)
  exact ⟨lead, trail, by rw [trim, List.append_assoc, ← hend, ← hstart], hlead, htrail⟩

/-- Trimming the end leaves a text alone exactly if it does not end with a blank. -/
theorem trimEnd_eq_self_iff : trimEnd t = t ↔ ∀ c ∈ t.getLast?, ¬ isBlank c := by
  rcases List.eq_nil_or_concat t with rfl | ⟨init, c, rfl⟩
  · simp [trimEnd]
  · rw [List.concat_eq_append, List.getLast?_concat]
    by_cases hc : isBlank c
    · refine iff_of_false (fun h => ?_) (by simpa using hc)
      obtain ⟨blanks, hinit, _⟩ := exists_trimEnd init
      rw [trimEnd_concat hc] at h
      have hlength := congrArg List.length hinit
      rw [h, List.length_append, List.length_append, List.length_singleton] at hlength
      omega
    · refine iff_of_true ?_ (by simpa using hc)
      rw [trimEnd, List.reverse_append, List.reverse_singleton, List.singleton_append,
        List.dropWhile_cons_of_neg hc, List.reverse_cons, List.reverse_reverse]

theorem trim_eq_nil_iff : trim t = [] ↔ ∀ c ∈ t, isBlank c := by
  refine ⟨fun h => ?_, trim_eq_nil⟩
  obtain ⟨lead, trail, ht, hlead, htrail⟩ := exists_trim t
  rw [h, List.append_nil] at ht
  rw [ht]
  exact List.forall_mem_append.2 ⟨hlead, htrail⟩

/-- Neither end is a blank. -/
def Trimmed (t : Text) : Prop :=
  (∀ c ∈ t.head?, ¬ isBlank c) ∧ ∀ c ∈ t.getLast?, ¬ isBlank c

theorem head?_trimStart (t : Text) : ∀ c ∈ (trimStart t).head?, ¬ isBlank c := by
  intro c hc
  have hnot := List.head?_dropWhile_not isBlank t
  rw [show (t.dropWhile isBlank).head? = some c from hc] at hnot
  simpa using hnot

theorem trimEnd_trimEnd (t : Text) : trimEnd (trimEnd t) = trimEnd t := by
  rw [trimEnd_eq_self_iff, trimEnd, List.getLast?_reverse]
  exact head?_trimStart t.reverse

theorem trimmed_trim (t : Text) : Trimmed (trim t) := by
  constructor
  · -- the start of the trimmed part is that of the text without its leading blanks
    intro c hc
    obtain ⟨blanks, hend, _⟩ := exists_trimEnd (trimStart t)
    apply head?_trimStart t c
    rw [hend, List.head?_append, show (trimEnd (trimStart t)).head? = some c from hc]
    rfl
  · exact trimEnd_eq_self_iff.1 (trimEnd_trimEnd (trimStart t))

theorem Trimmed.trim_eq (h : Trimmed t) : trim t = t := by
  obtain ⟨lead, trail, ht, hlead, htrail⟩ := exists_trim t
  have hlead' : lead = [] := by
    cases lead with
    | nil => rfl
    | cons c lead => exact absurd (hlead c List.mem_cons_self) (h.1 c (by rw [ht]; rfl))
  have htrail' : trail = [] := by
    rcases List.eq_nil_or_concat trail with hnil | ⟨init, c, rfl⟩
    · exact hnil
    · rw [List.concat_eq_append] at ht htrail
      refine absurd (htrail c (by simp)) (h.2 c ?_)
      rw [ht, ← List.append_assoc, List.getLast?_concat]
      rfl
  rw [hlead', htrail', List.nil_append, List.append_nil] at ht
  exact ht.symm

theorem trim_eq_self_iff : trim t = t ↔ Trimmed t :=
  ⟨fun h => h ▸ trimmed_trim t, Trimmed.trim_eq⟩

theorem Trimmed.append {a b : Text} (ha : Trimmed a) (hb : Trimmed b) (hane : a ≠ []) (hbne : b ≠ [])
    (between : Text) : Trimmed (a ++ between ++ b) := by
  constructor
  · rw [List.append_assoc, List.head?_append_of_ne_nil _ hane]
    exact ha.1
  · rw [List.getLast?_append_of_ne_nil _ hbne]
    exact hb.2

/-- Trimmed texts that are not empty make one when they are joined. -/
theorem trimmed_joinWith {ps : List Text} (sep : Text) (hps : ps ≠ [])
    (h : ∀ p ∈ ps, p ≠ [] ∧ Trimmed p) : joinWith sep ps ≠ [] ∧ Trimmed (joinWith sep ps) := by
  induction ps with
  | nil => exact absurd rfl hps
  | cons p ps ih =>
    obtain ⟨⟨hne, hp⟩, hrest⟩ := List.forall_mem_cons.1 h
    by_cases hnil : ps = []
    · subst hnil
      exact ⟨hne, hp⟩
    · obtain ⟨hjoin, htrimmed⟩ := ih hnil hrest
      rw [joinWith_cons hnil]
      exact ⟨List.append_ne_nil_of_right_ne_nil _ hjoin, hp.append htrimmed hne hjoin sep⟩

/-- What follows a blank in a trimmed text is blank up to its trimmed part, and that is not empty. -/
theorem Trimmed.after_blank {before rest : Text} {c : Char} (h : Trimmed (before ++ c :: rest))
    (hc : isBlank c) :
    trim rest ≠ [] ∧ ∃ blanks, rest = blanks ++ trim rest ∧ ∀ x ∈ blanks, isBlank x := by
  obtain ⟨lead, trail, hrest, hlead, htrail⟩ := exists_trim rest
  -- the last character is in what follows, and is no blank
  obtain ⟨init, x, hlast⟩ : ∃ init x, c :: rest = init ++ [x] :=
    ⟨_, _, (List.dropLast_concat_getLast (List.cons_ne_nil c rest)).symm⟩
  have hx : ¬ isBlank x := h.2 x (by rw [hlast, ← List.append_assoc, List.getLast?_concat]; rfl)
  have hmem : x ∈ c :: rest := by rw [hlast]; simp
  have htrail' : trail = [] := by
    rcases List.eq_nil_or_concat trail with hnil | ⟨more, y, rfl⟩
    · exact hnil
    · rw [List.concat_eq_append] at hrest htrail
      rw [hrest, ← List.append_assoc, ← List.cons_append] at hlast
      obtain rfl : y = x := List.singleton_inj.1 (List.append_inj' hlast rfl).2
      exact absurd (htrail y (by simp)) hx
  rw [htrail', List.append_nil] at hrest
  refine ⟨fun hnil => hx ?_, lead, hrest, hlead⟩
  rw [hnil, List.append_nil] at hrest
  rcases List.mem_cons.1 hmem with rfl | hmem
  · exact hc
  · exact hlead x (hrest ▸ hmem)

/-- A text that trimming leaves alone keeps its end whatever stands before it. -/
theorem trimEnd_append (hne : t ≠ []) (ht : trim t = t) (before : Text) :
    trimEnd (before ++ t) = before ++ t := by
  obtain ⟨init, c, rfl⟩ : ∃ init c, t = init ++ [c] :=
    ⟨_, _, (List.dropLast_concat_getLast hne).symm⟩
  have hc : ¬ isBlank c := (trim_eq_self_iff.1 ht).2 c (by rw [List.getLast?_concat]; rfl)
  rw [trimEnd, ← List.append_assoc, List.reverse_append, List.reverse_singleton,
    List.singleton_append, List.dropWhile_cons_of_neg hc, List.reverse_cons, List.reverse_reverse]

/-- Trimming finds a trimmed text between blanks. -/
theorem Trimmed.trim_between (h : Trimmed t) (hne : t ≠ []) {lead trail : Text}
    (hlead : ∀ c ∈ lead, isBlank c) (htrail : ∀ c ∈ trail, isBlank c) :
    trim (lead ++ (t ++ trail)) = t := by
  have hstart : trimStart (lead ++ (t ++ trail)) = t ++ trail := by
    obtain ⟨c, cs, rfl⟩ := List.exists_cons_of_ne_nil hne
    rw [trimStart, List.dropWhile_append_of_pos hlead, List.cons_append,
      List.dropWhile_cons_of_neg (h.1 c rfl)]
  have hend : trimEnd trail = [] := by
    have hreverse : ∀ c ∈ trail.reverse, isBlank c := fun c hc => htrail c (List.mem_reverse.1 hc)
    rw [trimEnd, List.dropWhile_eq_nil_iff.2 hreverse, List.reverse_nil]
  rw [trim, hstart, trimEnd_prepend, if_pos hend]
  exact trimEnd_append hne h.trim_eq []

end Folio.Text
