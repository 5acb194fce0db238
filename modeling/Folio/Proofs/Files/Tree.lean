import Mathlib.Data.List.Infix
import Mathlib.Data.List.Sort
import Folio.Files.FileTree
import Folio.Proofs.Text.Order

namespace Folio

namespace FileTree

variable {t : FileTree} {l m : Location} {e : Entry}

theorem lookup_eq_some_iff (hl : l ≠ []) : t.lookup l = some e ↔ (l, e) ∈ t.entries :=
  ⟨fun h => mem_of_lookup h hl, lookup_of_mem⟩

/-- A tree has the entry that was put into it, and every other one that it had. -/
theorem lookup_put (h : t.Admits l e) : (t.put l e h).lookup m = if m = l then some e else t.lookup m := by
  by_cases hm : m = []
  · subst hm
    rw [if_neg (Ne.symm h.1)]
    rfl
  · apply Option.ext
    intro f
    rw [lookup_eq_some_iff hm, put]
    by_cases hml : m = l
    · subst hml
      simp [eq_comm]
    · rw [if_neg hml, lookup_eq_some_iff hm]
      simp [hml]

/-- Whatever lies below the root has so many names at the most. -/
theorem length_le_depth (h : t.lookup l = some e) : l.length ≤ t.depth := by
  by_cases hl : l = []
  · subst hl
    exact Nat.zero_le _
  · have hmem := mem_of_lookup h hl
    have hmax (xs : List Nat) (k : Nat) : k ≤ xs.foldl max k ∧ ∀ x ∈ xs, x ≤ xs.foldl max k := by
      induction xs generalizing k with
      | nil => simp
      | cons y ys ih =>
        obtain ⟨hk, hys⟩ := ih (max k y)
        refine ⟨(Nat.le_max_left k y).trans hk, ?_⟩
        intro x hx
        rcases List.mem_cons.1 hx with rfl | hx
        · exact (Nat.le_max_right k x).trans hk
        · exact hys x hx
    exact (hmax _ 0).2 _ (List.mem_map.2 ⟨_, hmem, rfl⟩)

theorem mem_children_iff {n : Text} : n ∈ t.children l ↔ ∃ e, t.lookup (l ++ [n]) = some e := by
  have hne : l ++ [n] ≠ [] := by simp
  unfold children
  rw [List.mem_mergeSort, List.mem_filterMap]
  simp only [List.mem_filter, decide_eq_true_eq, lookup_eq_some_iff hne]
  constructor
  · rintro ⟨⟨m, e⟩, ⟨hmem, rfl⟩, hn⟩
    have hm : m ≠ [] := (t.named _ hmem).1
    obtain rfl : m.getLast hm = n := Option.some.inj ((List.getLast?_eq_some_getLast hm).symm.trans hn)
    exact ⟨e, by rwa [List.dropLast_concat_getLast]⟩
  · rintro ⟨e, hmem⟩
    exact ⟨_, ⟨hmem, by simp⟩, by simp⟩

theorem nodup_children : (t.children l).Nodup := by
  have hkeys : t.entries.Pairwise fun p q => p.1 ≠ q.1 := List.pairwise_map.1 t.nodup
  unfold children
  rw [List.Perm.nodup_iff (List.mergeSort_perm _ _), List.Nodup, List.pairwise_filterMap]
  refine (hkeys.filter _).imp_of_mem ?_
  intro p q hp hq hne n hn m hm hnm
  obtain ⟨hp, hpl⟩ := List.mem_filter.1 hp
  obtain ⟨hq, hql⟩ := List.mem_filter.1 hq
  rw [decide_eq_true_eq] at hpl hql
  -- two entries of the directory with one name are the same
  have hjoin {r : Location × Entry} {k : Text} (hr : r ∈ t.entries) (hl : r.1.dropLast = l)
      (hk : r.1.getLast? = some k) : r.1 = l ++ [k] := by
    obtain ⟨before, hb⟩ := List.getLast?_eq_some_iff.1 hk
    rw [hb, List.dropLast_concat] at hl
    rw [hb, hl]
  exact hne ((hjoin hp hpl hn).trans (hnm ▸ (hjoin hq hql hm).symm))

theorem sorted_children : (t.children l).Pairwise fun a b => Text.le a b :=
  @List.pairwise_mergeSort _ Text.le (fun _ _ _ => Text.le_trans)
    (fun a b => by rw [Bool.or_eq_true]; exact Text.le_total a b) _

end FileTree
end Folio
