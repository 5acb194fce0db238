import Folio.Proofs.Files.Lexical

namespace Folio.Workspace

variable {w : Workspace} {l : Location} {e : Entry}

/-- Whatever lies above an entry is a directory. -/
theorem lookup_of_append {m : Location} (h : w.tree.lookup (l ++ m) = some e) (hm : m ≠ []) :
    w.tree.lookup l = some .directory := by
  -- one name after the other is taken from the end
  induction hk : m.length generalizing m e with
  | zero => exact absurd (List.eq_nil_of_length_eq_zero hk) hm
  | succ k ih =>
    have hdrop := FileTree.lookup_dropLast h
    rw [List.dropLast_append_of_ne_nil hm] at hdrop
    by_cases hd : m.dropLast = []
    · rwa [hd, List.append_nil] at hdrop
    · exact ih hdrop hd (by rw [List.length_dropLast, hk, Nat.add_sub_cancel])

/-- The names down to an entry can be walked from anywhere above it. -/
theorem walk_names {m : Location} (h : w.tree.lookup (l ++ m) = some e) :
    w.walk l m = .ok (l ++ m) := by
  -- the entry stays the same while the walk goes down to it
  induction m generalizing l with
  | nil => rw [walk, List.append_nil]
  | cons n ns ih =>
    have hname : IsName n := FileTree.isName_of_lookup h n (by simp)
    have hdir : w.tree.lookup l = some .directory := lookup_of_append h (by simp)
    rw [List.append_cons] at h ⊢
    -- the next name leads to the entry itself or to a directory above it
    have hthere : w.tree.lookup (l ++ [n]) ≠ none := by
      by_cases hns : ns = []
      · subst hns
        rw [List.append_nil] at h
        rw [h]
        simp
      · rw [lookup_of_append h hns]
        simp
    rw [walk_name hdir (Path.not_isFiller hname) hname.ne_dots hname.size_le hthere]
    exact ih h

/-- The path of an entry leads to it. -/
theorem resolve_pathOf (h : w.tree.lookup l = some e) : w.resolve (pathOf l) = .ok l := by
  have hnames := FileTree.isName_of_lookup h
  have hnul : (pathOf l).text.contains (Char.ofNat 0) = false := by
    rw [Bool.eq_false_iff, ne_eq, List.contains_iff_mem, pathOf, List.mem_cons, not_or]
    refine ⟨by decide, fun hnul => ?_⟩
    rcases Text.mem_joinWith hnul with hslash | ⟨n, hn, hnul⟩
    · exact absurd hslash (by decide)
    · exact (hnames n hn).nul_not_mem hnul
  have hstart : w.start (pathOf l) = [] := rfl
  have hroot : w.tree.lookup [] = some .directory := rfl
  have hskip (ss : List Text) : w.walk [] ([] :: ss) = w.walk [] ss :=
    walk_step (stop?_eq_none_iff.2 ⟨hroot, Or.inl rfl⟩)
  unfold resolve
  rw [if_neg (by simp [pathOf, Path.isEmpty]), hnul, if_neg (by simp), hstart, segments_pathOf hnames]
  split
  · rename_i hl
    rw [hskip, hskip, hl]
    rfl
  · rw [hskip]
    exact walk_names h

theorem getLast?_joinWith (sep : Text) (ps : List Text) {p : Text} (hp : p ≠ []) :
    (Text.joinWith sep (ps ++ [p])).getLast? = p.getLast? := by
  by_cases hps : ps = []
  · subst hps
    rfl
  · rw [Text.joinWith_append hps (by simp), Text.joinWith, List.getLast?_append,
      List.getLast?_eq_some_getLast hp, Option.some_or]

/-- A name in a directory, read from the path of that directory. -/
theorem join_pathOf {n : Text} (hl : ∀ m ∈ l, IsName m) (hn : IsName n) :
    (pathOf l).join ⟨n⟩ = pathOf (l ++ [n]) := by
  have hrel : ¬ (Path.mk n).isAbsolute := by
    rw [Path.isAbsolute, decide_eq_true_eq]
    exact fun h => hn.slash_not_mem (List.mem_of_mem_head? h)
  unfold Path.join
  rw [if_neg hrel]
  rcases List.eq_nil_or_concat l with rfl | ⟨ms, m, rfl⟩
  · rfl
  · rw [List.concat_eq_append] at hl ⊢
    have hm : IsName m := hl m (by simp)
    -- no slash is there yet at the end, since names have none
    have hlast : (pathOf (ms ++ [m])).text.getLast? ≠ some '/' := by
      intro h
      rw [pathOf, ← List.singleton_append, List.getLast?_append, getLast?_joinWith _ _ hm.1,
        List.getLast?_eq_some_getLast hm.1, Option.some_or] at h
      exact hm.slash_not_mem (Option.some.inj h ▸ List.getLast_mem hm.1)
    have hjoin : Text.joinWith ['/'] ((ms ++ [m]) ++ [n]) =
        Text.joinWith ['/'] (ms ++ [m]) ++ ['/'] ++ Text.joinWith ['/'] [n] :=
      Text.joinWith_append (by simp) (by simp)
    have hempty : ¬ (pathOf (ms ++ [m])).isEmpty := by simp [Path.isEmpty, pathOf]
    rw [if_neg (by rw [Bool.or_eq_true, decide_eq_true_eq, not_or]; exact ⟨hempty, hlast⟩)]
    unfold pathOf
    rw [hjoin]
    simp [Text.joinWith]

end Folio.Workspace
