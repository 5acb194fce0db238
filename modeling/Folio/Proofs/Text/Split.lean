import Folio.Text.Basic

namespace Folio.Text

variable {sep : Char}

theorem splitOn_append_cons (a b : Text) :
    splitOn sep (a ++ sep :: b) = splitOn sep a ++ splitOn sep b := by
  induction a with
  | nil => simp [splitOn]
  | cons c cs ih =>
    rw [List.cons_append, splitOn, splitOn, ih]
    by_cases hc : c = sep
    · rw [if_pos hc, if_pos hc, List.cons_append]
    · rw [if_neg hc, if_neg hc]
      cases hs : splitOn sep cs with
      | nil => exact absurd hs (splitOn_ne_nil sep cs)
      | cons p ps => rfl

theorem splitOn_of_not_mem {t : Text} (h : sep ∉ t) : splitOn sep t = [t] := by
  induction t with
  | nil => rfl
  | cons c cs ih =>
    rw [List.mem_cons, not_or] at h
    rw [splitOn, if_neg (Ne.symm h.1), ih h.2]

theorem not_mem_of_mem_splitOn {t p : Text} (h : p ∈ splitOn sep t) : sep ∉ p := by
  induction t generalizing p with
  | nil =>
    rw [splitOn, List.mem_singleton] at h
    rw [h]
    exact List.not_mem_nil
  | cons c cs ih =>
    rw [splitOn] at h
    by_cases hc : c = sep
    · rw [if_pos hc] at h
      rcases List.mem_cons.1 h with rfl | h
      · exact List.not_mem_nil
      · exact ih h
    · rw [if_neg hc] at h
      cases hs : splitOn sep cs with
      | nil => exact absurd hs (splitOn_ne_nil sep cs)
      | cons q qs =>
        rw [hs] at h ih
        rcases List.mem_cons.1 h with rfl | h
        · rw [List.mem_cons, not_or]
          exact ⟨Ne.symm hc, ih List.mem_cons_self⟩
        · exact ih (List.mem_cons_of_mem q h)

/-- Splitting undoes joining, but for a last piece that is itself split. -/
theorem splitOn_joinWith_append {ps : List Text} (h : ∀ p ∈ ps, sep ∉ p) (t : Text) :
    splitOn sep (joinWith [sep] (ps ++ [t])) = ps ++ splitOn sep t := by
  induction ps with
  | nil => rfl
  | cons p ps ih =>
    have hp : sep ∉ p := h p List.mem_cons_self
    rw [List.cons_append, joinWith_cons (by simp), List.append_assoc, List.singleton_append,
      splitOn_append_cons, splitOn_of_not_mem hp,
      ih fun q hq => h q (List.mem_cons_of_mem p hq)]
    rfl

theorem splitOn_joinWith {ps : List Text} (hne : ps ≠ []) (h : ∀ p ∈ ps, sep ∉ p) :
    splitOn sep (joinWith [sep] ps) = ps := by
  obtain ⟨qs, t, rfl⟩ : ∃ qs t, ps = qs ++ [t] :=
    ⟨_, _, (List.dropLast_concat_getLast hne).symm⟩
  rw [splitOn_joinWith_append fun q hq => h q (List.mem_append_left _ hq),
    splitOn_of_not_mem (h t (by simp))]

/-- The last piece of a text goes on with the first piece of what follows. -/
theorem splitOn_append (a b : Text) : ∃ init last first more, splitOn sep a = init ++ [last] ∧
    splitOn sep b = first :: more ∧ splitOn sep (a ++ b) = init ++ (last ++ first) :: more := by
  obtain ⟨first, more, hb⟩ := List.exists_cons_of_ne_nil (splitOn_ne_nil sep b)
  suffices h : ∃ init last, splitOn sep a = init ++ [last] ∧
      splitOn sep (a ++ b) = init ++ (last ++ first) :: more by
    obtain ⟨init, last, ha, hab⟩ := h
    exact ⟨init, last, first, more, ha, hb, hab⟩
  induction a with
  | nil => exact ⟨[], [], rfl, hb⟩
  | cons c cs ih =>
    obtain ⟨init, last, hcs, hcsb⟩ := ih
    rw [List.cons_append, splitOn, splitOn, hcs, hcsb]
    by_cases hc : c = sep
    · rw [if_pos hc, if_pos hc]
      exact ⟨[] :: init, last, rfl, rfl⟩
    · rw [if_neg hc, if_neg hc]
      cases init with
      | nil => exact ⟨[], c :: last, rfl, rfl⟩
      | cons p ps => exact ⟨(c :: p) :: ps, last, rfl, rfl⟩

theorem mem_of_mem_splitOn {t p : Text} {c : Char} (h : p ∈ splitOn sep t) (hc : c ∈ p) : c ∈ t := by
  induction t generalizing p with
  | nil =>
    rw [splitOn, List.mem_singleton] at h
    rw [h] at hc
    cases hc
  | cons d ds ih =>
    rw [splitOn] at h
    by_cases hd : d = sep
    · rw [if_pos hd] at h
      rcases List.mem_cons.1 h with rfl | h
      · cases hc
      · exact List.mem_cons_of_mem d (ih h hc)
    · rw [if_neg hd] at h
      cases hs : splitOn sep ds with
      | nil => exact absurd hs (splitOn_ne_nil sep ds)
      | cons q qs =>
        rw [hs] at h ih
        rcases List.mem_cons.1 h with rfl | h
        · rcases List.mem_cons.1 hc with rfl | hc
          · exact List.mem_cons_self
          · exact List.mem_cons_of_mem d (ih List.mem_cons_self hc)
        · exact List.mem_cons_of_mem d (ih (List.mem_cons_of_mem q h) hc)

theorem mem_joinWith {sep : Text} {ps : List Text} {c : Char} (h : c ∈ joinWith sep ps) :
    c ∈ sep ∨ ∃ p ∈ ps, c ∈ p := by
  induction ps with
  | nil => cases h
  | cons p ps ih =>
    by_cases hps : ps = []
    · subst hps
      exact Or.inr ⟨p, List.mem_cons_self, h⟩
    · rw [joinWith_cons hps, List.mem_append, List.mem_append] at h
      rcases h with (h | h) | h
      · exact Or.inr ⟨p, List.mem_cons_self, h⟩
      · exact Or.inl h
      · exact (ih h).imp_right fun ⟨q, hq, hc⟩ => ⟨q, List.mem_cons_of_mem p hq, hc⟩

theorem joinWith_concat_append (sep : Text) (init : List Text) (last more : Text) :
    joinWith sep (init ++ [last ++ more]) = joinWith sep (init ++ [last]) ++ more := by
  by_cases h : init = []
  · subst h
    rfl
  · rw [joinWith_append h (by simp), joinWith_append h (by simp), List.append_assoc _ _ more]
    rfl

theorem exists_joinWith_append (sep : Text) {ps : List Text} (hps : ps ≠ []) (qs : List Text) :
    ∃ more, joinWith sep (ps ++ qs) = joinWith sep ps ++ more := by
  by_cases hqs : qs = []
  · subst hqs
    exact ⟨[], by simp⟩
  · exact ⟨sep ++ joinWith sep qs, by rw [joinWith_append hps hqs, List.append_assoc]⟩

/-- The head of a text without separators before it is the head of its first piece. -/
theorem head?_of_splitOn {t first : Text} {rest : List Text} (h : splitOn sep t = first :: rest)
    (hne : first ≠ []) : t.head? = first.head? := by
  have ht := joinWith_splitOn sep t
  rw [h] at ht
  obtain ⟨c, cs, rfl⟩ := List.exists_cons_of_ne_nil hne
  rw [← ht]
  cases rest <;> rfl

theorem splitFirst?_eq_some_iff {test : Char → Bool} {t a b : Text} :
    splitFirst? test t = some (a, b) ↔ ∃ c, t = a ++ c :: b ∧ test c ∧ ∀ x ∈ a, ¬ test x := by
  induction t generalizing a with
  | nil => simp [splitFirst?]
  | cons d ds ih =>
    rw [splitFirst?]
    by_cases hd : test d
    · rw [if_pos hd]
      constructor
      · rintro h
        obtain ⟨rfl, rfl⟩ := Prod.mk.inj (Option.some.inj h)
        exact ⟨d, rfl, hd, by simp⟩
      · rintro ⟨c, h, hc, ha⟩
        cases a with
        | nil => rw [(List.cons.inj h).2]
        | cons x xs =>
          obtain rfl := (List.cons.inj h).1
          exact absurd hd (ha d (by simp))
    · rw [if_neg hd, Option.map_eq_some_iff]
      constructor
      · rintro ⟨⟨a', b'⟩, h, heq⟩
        obtain ⟨rfl, rfl⟩ := Prod.mk.inj heq
        obtain ⟨c, rfl, hc, ha⟩ := ih.1 h
        refine ⟨c, rfl, hc, ?_⟩
        intro x hx
        rcases List.mem_cons.1 hx with rfl | hx
        · exact hd
        · exact ha x hx
      · rintro ⟨c, h, hc, ha⟩
        cases a with
        | nil =>
          obtain rfl := (List.cons.inj h).1
          exact absurd hc hd
        | cons x xs =>
          obtain ⟨rfl, rfl⟩ := List.cons.inj h
          exact ⟨(xs, b), ih.2 ⟨c, rfl, hc, fun y hy => ha y (List.mem_cons_of_mem d hy)⟩, rfl⟩

/-- Two cuts of a text at the first character that satisfies a test are one. -/
theorem eq_of_append_cons (test : Char → Bool) {a a' r r' : Text} {c c' : Char}
    (h : a ++ c :: r = a' ++ c' :: r') (hc : test c) (hc' : test c') (ha : ∀ x ∈ a, ¬ test x)
    (ha' : ∀ x ∈ a', ¬ test x) : a = a' ∧ c :: r = c' :: r' := by
  have hsplit : splitFirst? test (a ++ c :: r) = some (a, r) :=
    splitFirst?_eq_some_iff.2 ⟨c, rfl, hc, ha⟩
  have hsplit' : splitFirst? test (a' ++ c' :: r') = some (a', r') :=
    splitFirst?_eq_some_iff.2 ⟨c', rfl, hc', ha'⟩
  rw [h, hsplit'] at hsplit
  obtain ⟨rfl, rfl⟩ := Prod.mk.inj (Option.some.inj hsplit)
  exact ⟨rfl, List.append_cancel_left h⟩

end Folio.Text
