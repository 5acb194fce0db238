import Folio.Json.Basic
import Folio.Proofs.Text.Order

namespace Folio.Json

variable {α : Type} {ms ns : List (Text × α)}

/-- Keys increase, so that each is there once. -/
def Sorted (ms : List (Text × α)) : Prop := ms.Pairwise fun a b => ¬ Text.le b.1 a.1

theorem sorted_nil : Sorted ([] : List (Text × α)) := List.Pairwise.nil

theorem lookup_cons (l k : Text) (v : α) (ms : List (Text × α)) :
    ((l, v) :: ms).lookup k = if k = l then some v else ms.lookup k := by
  by_cases hk : k = l
  · rw [if_pos hk, hk, List.lookup_cons_self]
  · rw [if_neg hk, List.lookup_cons, beq_false_of_ne hk]

theorem lookup_insertMember (key k : Text) (value : α) (ms : List (Text × α)) :
    (insertMember key value ms).lookup k = if k = key then some value else ms.lookup k := by
  induction ms with
  | nil =>
    rw [insertMember, lookup_cons]
  | cons m ms ih =>
    obtain ⟨l, v⟩ := m
    rw [insertMember]
    by_cases hkey : key = l
    · -- the member takes the place of one with its key
      subst hkey
      rw [if_pos rfl, lookup_cons, lookup_cons]
      split <;> rfl
    · rw [if_neg hkey]
      split
      · rw [lookup_cons]
      · rw [lookup_cons, lookup_cons, ih]
        by_cases hk : k = l
        · rw [if_pos hk, if_neg (hk ▸ Ne.symm hkey), if_pos hk]
        · rw [if_neg hk, if_neg hk]

theorem mem_insertMember {key : Text} {value : α} {m : Text × α}
    (h : m ∈ insertMember key value ms) : m.1 = key ∨ m ∈ ms := by
  induction ms with
  | nil => exact Or.inl (by rw [List.mem_singleton.1 h])
  | cons n ms ih =>
    obtain ⟨l, v⟩ := n
    rw [insertMember] at h
    split at h
    · rcases List.mem_cons.1 h with rfl | hm
      · exact Or.inl rfl
      · exact Or.inr (List.mem_cons_of_mem _ hm)
    · split at h
      · rcases List.mem_cons.1 h with rfl | hm
        · exact Or.inl rfl
        · exact Or.inr hm
      · rcases List.mem_cons.1 h with rfl | hm
        · exact Or.inr List.mem_cons_self
        · exact (ih hm).imp_right (List.mem_cons_of_mem _)

theorem Sorted.insertMember (h : Sorted ms) (key : Text) (value : α) :
    Sorted (insertMember key value ms) := by
  induction ms with
  | nil => exact List.pairwise_singleton _ _
  | cons m ms ih =>
    obtain ⟨l, v⟩ := m
    obtain ⟨hfirst, hrest⟩ := List.pairwise_cons.1 h
    rw [Json.insertMember]
    by_cases hkey : key = l
    · subst hkey
      rw [if_pos rfl]
      exact List.pairwise_cons.2 ⟨hfirst, hrest⟩
    · rw [if_neg hkey]
      by_cases hle : Text.le key l
      · rw [if_pos hle]
        -- the key comes before the first one, and so before all
        refine List.pairwise_cons.2 ⟨fun n hn hback => ?_, h⟩
        rcases List.mem_cons.1 hn with rfl | hn
        · exact hkey (Text.le_antisymm hle hback)
        · exact hfirst n hn (Text.le_trans hback hle)
      · rw [if_neg hle]
        refine List.pairwise_cons.2 ⟨fun n hn => ?_, ih hrest⟩
        rcases mem_insertMember hn with hn | hn
        · rw [hn]
          exact hle
        · exact hfirst n hn

/-- Of the members that are put in one after another, the last one of a key stays. -/
theorem lookup_insertAll (ns ms : List (Text × α)) (k : Text) :
    (ns.foldl (fun f m => insertMember m.1 m.2 f) ms).lookup k =
      (ns.reverse.lookup k).or (ms.lookup k) := by
  induction ns generalizing ms with
  | nil => rfl
  | cons n ns ih =>
    obtain ⟨l, v⟩ := n
    rw [List.foldl_cons, ih, lookup_insertMember, List.reverse_cons, List.lookup_append, Option.or_assoc,
      lookup_cons]
    split <;> rfl

theorem Sorted.insertAll (h : Sorted ms) (ns : List (Text × α)) :
    Sorted (ns.foldl (fun f m => Json.insertMember m.1 m.2 f) ms) := by
  induction ns generalizing ms with
  | nil => exact h
  | cons n ns ih => exact ih (h.insertMember n.1 n.2)

theorem sorted_sortMembers (ms : List (Text × α)) : Sorted (sortMembers ms) := sorted_nil.insertAll ms

/-- A key that no member can have in this order. -/
theorem Sorted.lookup_eq_none {l k : Text} {v : α} (h : Sorted ((l, v) :: ms)) (hk : ¬ Text.le l k) :
    ((l, v) :: ms).lookup k = none := by
  rw [List.lookup_eq_none_iff]
  intro m hm
  rw [bne_iff_ne]
  rintro rfl
  rcases List.mem_cons.1 hm with rfl | hm
  · exact hk (or_self_iff.1 (Text.le_total _ _))
  · exact hk ((Text.le_total _ _).resolve_right ((List.pairwise_cons.1 h).1 m hm))

theorem Sorted.lookup_tail {l k : Text} {v : α} (h : Sorted ((l, v) :: ms)) :
    ms.lookup k = if k = l then none else ((l, v) :: ms).lookup k := by
  by_cases hk : k = l
  · subst hk
    rw [if_pos rfl, List.lookup_eq_none_iff]
    intro m hm
    rw [bne_iff_ne]
    rintro rfl
    exact (List.pairwise_cons.1 h).1 m hm (or_self_iff.1 (Text.le_total _ _))
  · rw [if_neg hk, lookup_cons, if_neg hk]

theorem Sorted.lookup_reverse (h : Sorted ms) (k : Text) : ms.reverse.lookup k = ms.lookup k := by
  induction ms with
  | nil => rfl
  | cons m ms ih =>
    obtain ⟨l, v⟩ := m
    rw [List.reverse_cons, List.lookup_append, ih (List.pairwise_cons.1 h).2, h.lookup_tail, lookup_cons,
      lookup_cons]
    by_cases hk : k = l
    · simp only [hk, if_true, Option.none_or]
    · simp only [hk, if_false, List.lookup_nil, Option.or_none]

/-- Members in order are determined by what their keys lead to. -/
theorem Sorted.ext (hm : Sorted ms) (hn : Sorted ns) (h : ∀ k, ms.lookup k = ns.lookup k) :
    ms = ns := by
  induction ms generalizing ns with
  | nil =>
    cases ns with
    | nil => rfl
    | cons n ns =>
      obtain ⟨l, w⟩ := n
      have hl := h l
      rw [List.lookup_cons_self] at hl
      cases hl
  | cons m ms ih =>
    obtain ⟨k, v⟩ := m
    cases ns with
    | nil =>
      have hk := h k
      rw [List.lookup_cons_self] at hk
      cases hk
    | cons n ns =>
      obtain ⟨l, w⟩ := n
      -- each first key is a key of the other members, and so none comes before the other
      have hlk : Text.le l k := by
        refine Decidable.byContradiction fun hle => ?_
        have hk := h k
        rw [List.lookup_cons_self, hn.lookup_eq_none hle] at hk
        cases hk
      have hkl : Text.le k l := by
        refine Decidable.byContradiction fun hle => ?_
        have hl := h l
        rw [List.lookup_cons_self, hm.lookup_eq_none hle] at hl
        cases hl
      obtain rfl : k = l := Text.le_antisymm hkl hlk
      have hv := h k
      rw [List.lookup_cons_self, List.lookup_cons_self] at hv
      have htail := ih (List.pairwise_cons.1 hm).2 (List.pairwise_cons.1 hn).2 fun j => by
        rw [hm.lookup_tail, hn.lookup_tail, h j]
      rw [Option.some.inj hv, htail]

end Folio.Json
