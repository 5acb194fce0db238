import Folio.Proofs.Files.Canonical
import Folio.Proofs.Files.Tree

namespace Folio.Workspace

open Folio.Path

/-- The second workspace has all that the first has. Its files are the same but at some locations. -/
structure Grown (pages : Location → Prop) (w w' : Workspace) : Prop where
  home : w'.home = w.home
  directory : ∀ l, w.tree.lookup l = some .directory → w'.tree.lookup l = some .directory
  file : ∀ l c, w.tree.lookup l = some (.file c) → ∃ c', w'.tree.lookup l = some (.file c')
  same : ∀ l c, ¬ pages l →
    (w'.tree.lookup l = some (.file c) ↔ w.tree.lookup l = some (.file c))

namespace Grown

variable {pages more : Location → Prop} {w w' w'' : Workspace} {l m : Location}

theorem refl (pages : Location → Prop) (w : Workspace) : Grown pages w w :=
  ⟨rfl, fun _ h => h, fun _ c h => ⟨c, h⟩, fun _ _ _ => Iff.rfl⟩

theorem trans (h : Grown pages w w') (h' : Grown pages w' w'') : Grown pages w w'' where
  home := h'.home.trans h.home
  directory l hl := h'.directory l (h.directory l hl)
  file l c hl := by
    obtain ⟨c', hc'⟩ := h.file l c hl
    exact h'.file l c' hc'
  same l c hl := (h'.same l c hl).trans (h.same l c hl)

theorem mono (h : Grown pages w w') (hmore : ∀ l, pages l → more l) : Grown more w w' :=
  ⟨h.home, h.directory, h.file, fun l c hl => h.same l c fun hp => hl (hmore l hp)⟩

theorem present (h : Grown pages w w') (hl : w.tree.lookup l ≠ none) : w'.tree.lookup l ≠ none := by
  cases he : w.tree.lookup l with
  | none => exact absurd he hl
  | some e =>
    cases e with
    | directory =>
      rw [h.directory l he]
      simp
    | file c =>
      obtain ⟨c', hc'⟩ := h.file l c he
      rw [hc']
      simp

/-- Every walk that was possible still is. -/
theorem walk (h : Grown pages w w') {ss : List Text} (hw : w.walk l ss = .ok m) :
    w'.walk l ss = .ok m := by
  induction ss generalizing l with
  | nil => exact hw
  | cons s ss ih =>
    obtain ⟨hgo, hrest⟩ := walk_cons_eq_ok_iff.1 hw
    obtain ⟨hdir, hname⟩ := stop?_eq_none_iff.1 hgo
    have hgo' : w'.stop? l s = none := by
      apply stop?_eq_none_iff.2
      refine ⟨h.directory l hdir, hname.imp_right fun hname => hname.imp_right ?_⟩
      rintro ⟨hsize, hthere⟩
      exact ⟨hsize, h.present hthere⟩
    exact walk_cons_eq_ok_iff.2 ⟨hgo', ih hrest⟩

theorem start (h : Grown pages w w') (p : Path) : w'.start p = w.start p := by
  unfold Workspace.start
  rw [h.home]

theorem lexical (h : Grown pages w w') (p : Path) : w'.lexical p = w.lexical p := by
  unfold Workspace.lexical
  rw [h.start]

theorem resolve (h : Grown pages w w') {p : Path} (hp : w.resolve p = .ok l) :
    w'.resolve p = .ok l := by
  unfold Workspace.resolve at hp ⊢
  split at hp
  · cases hp
  · rename_i hempty
    rw [if_neg hempty]
    split at hp
    · cases hp
    · rename_i hnul
      rw [if_neg hnul, h.start]
      exact h.walk hp

theorem isDirectory (h : Grown pages w w') {p : Path} (hp : w.isDirectory p) : w'.isDirectory p := by
  unfold Workspace.isDirectory entry? at hp ⊢
  cases hr : w.resolve p with
  | error e => simp [hr] at hp
  | ok l =>
    rw [hr] at hp
    rw [h.resolve hr]
    dsimp only at hp ⊢
    cases he : w.tree.lookup l with
    | none => simp [he] at hp
    | some e =>
      cases e with
      | directory =>
        rw [h.directory l he]
        rfl
      | file c => simp [he, Entry.isDirectory] at hp

end Grown

variable {w w' : Workspace} {p : Path} {l : Location}

theorem grown_put_directory (h : w.tree.Admits l .directory) (pages : Location → Prop) :
    Grown pages w { w with tree := w.tree.put l .directory h } := by
  have hnone : w.tree.lookup l = none := by
    rcases h.2.2.2 with hnone | ⟨_, hfile⟩
    · exact hnone
    · cases hfile
  refine ⟨rfl, fun m hm => ?_, fun m c hm => ⟨c, ?_⟩, fun m c _ => ?_⟩ <;>
    rw [FileTree.lookup_put] <;> by_cases hml : m = l
  · rw [if_pos hml]
  · rwa [if_neg hml]
  · rw [hml, hnone] at hm
    cases hm
  · rwa [if_neg hml]
  · rw [if_pos hml, hml, hnone]
    simp
  · rw [if_neg hml]

theorem makeDirectory_eq_ok (h : w.makeDirectory p = .ok w') :
    ∃ l, ∃ ha : w.tree.Admits l .directory, w' = { w with tree := w.tree.put l .directory ha } := by
  unfold makeDirectory at h
  dsimp only at h
  split at h
  · cases h
  · cases h
  · rename_i l _
    split at h
    · rename_i ha
      exact ⟨l, ha, (Except.ok.inj h).symm⟩
    · cases h

/-- What comes of making one directory: one that is there already will do. -/
def settled (v : Workspace) (q : Path) : Workspace × Option FileFault :=
  match v.makeDirectory q with
  | .ok v' => (v', none)
  | .error e => (v, if v.isDirectory q then none else some e)

/-- Making directories changes no file, whether it succeeds or not. -/
theorem grown_makeDirectories (w : Workspace) (p : Path) (pages : Location → Prop) :
    Grown pages w (w.makeDirectories p).1 := by
  have hone {v v' : Workspace} {q : Path} (h : v.makeDirectory q = .ok v') : Grown pages v v' := by
    obtain ⟨l, ha, rfl⟩ := makeDirectory_eq_ok h
    exact grown_put_directory ha pages
  have hsettle {v : Workspace} {q : Path} : Grown pages v (settled v q).1 := by
    unfold settled
    cases hv : v.makeDirectory q with
    | ok v' => exact hone hv
    | error e => exact Grown.refl pages v
  fun_induction makeDirectories w p with
  | case1 => exact Grown.refl pages w
  | case2 => exact Grown.refl pages w
  | case3 p _ _ q _ _ w' e hq ih =>
    rw [hq] at ih
    exact ih
  | case4 p _ _ _ q _ _ w' hq ih =>
    rw [hq] at ih
    exact ih.trans hsettle
  | case5 => exact hsettle

theorem grown_put_file {c : Content} (h : w.tree.Admits l (.file c)) :
    Grown (· = l) w { w with tree := w.tree.put l (.file c) h } := by
  have hnot : w.tree.lookup l ≠ some .directory := by
    rcases h.2.2.2 with hnone | ⟨hfile, _⟩
    · rw [hnone]
      simp
    · rintro hdir
      rw [hdir] at hfile
      cases hfile
  refine ⟨rfl, fun m hm => ?_, fun m d hm => ?_, fun m d hm => ?_⟩ <;> rw [FileTree.lookup_put]
  · rw [if_neg]
    · exact hm
    · rintro rfl
      exact hnot hm
  · by_cases hml : m = l
    · exact ⟨c, if_pos hml⟩
    · exact ⟨d, by rw [if_neg hml, hm]⟩
  · rw [if_neg hm]

/-- What a path has for its last segment is a name. -/
theorem target_eq_some {ss : List Text} (h : w.target p ss = .ok (some l)) :
    ∃ before n, ss = before ++ [n] ∧ ¬ isFiller n ∧ n ≠ ['.', '.'] ∧
      Text.byteSize n ≤ maxNameSize ∧ ¬ p.isEmpty ∧ ¬ p.text.contains (Char.ofNat 0) ∧
      ∃ m, w.walk (w.start p) before = .ok m ∧ w.tree.lookup m = some .directory ∧ l = m ++ [n] := by
  unfold target at h
  split at h
  · cases h
  · rename_i hempty
    split at h
    · cases h
    · rename_i hnul
      split at h
      · cases h
      · rename_i m hm
        split at h
        · cases h
        · rename_i hdir
          cases hlast : ss.getLast? with
          | none =>
            rw [hlast] at h
            cases h
          | some n =>
            obtain ⟨before, rfl⟩ := List.getLast?_eq_some_iff.1 hlast
            rw [hlast] at h
            dsimp only at h
            split at h
            · cases h
            · rename_i hn
              split at h
              · cases h
              · rename_i hsize
                rw [Bool.or_eq_true, not_or, decide_eq_true_eq] at hn
                rw [List.dropLast_concat] at hm
                exact ⟨before, n, rfl, hn.1, hn.2, Nat.le_of_not_lt hsize, hempty, hnul, m, hm,
                  Decidable.not_not.1 hdir, (Option.some.inj (Except.ok.inj h)).symm⟩

/-- A file that is written is there, and it is the only one that changes. -/
theorem write_eq_ok {c : Content} (h : w.write p c = .ok w') :
    ∃ before n, p.segments = before ++ [n] ∧ ¬ isFiller n ∧ n ≠ ['.', '.'] ∧
      Grown (· = w.lexical p) w w' ∧ w'.resolve p = .ok (w.lexical p) ∧
      w'.tree.lookup (w.lexical p) = some (.file c) := by
  unfold write at h
  split at h
  · cases h
  · cases h
  · rename_i l htarget
    split at h
    · rename_i ha
      obtain rfl := Except.ok.inj h
      obtain ⟨before, n, hsegments, hn, hdots, hsize, hempty, hnul, m, hm, hdir, rfl⟩ :=
        target_eq_some htarget
      have hlexical : w.lexical p = m ++ [n] := by
        unfold lexical
        rw [hsegments, follow_append, ← walk_eq_follow hm, follow_cons, step, if_neg hn, if_neg hdots]
        rfl
      have hgrown := grown_put_file ha
      have hfile : (w.tree.put (m ++ [n]) (.file c) ha).lookup (m ++ [n]) = some (.file c) := by
        rw [FileTree.lookup_put, if_pos rfl]
      refine ⟨before, n, hsegments, hn, hdots, ?_, ?_, ?_⟩ <;> rw [hlexical]
      · exact hgrown
      · have hlast : { w with tree := w.tree.put (m ++ [n]) (.file c) ha }.walk m [n] =
            .ok (m ++ [n]) := by
          rw [walk_name (hgrown.directory m hdir) hn hdots hsize (by simp [hfile])]
          rfl
        rw [resolve, if_neg hempty, if_neg hnul, hsegments, walk_append, hgrown.start, hgrown.walk hm]
        exact hlast
      · exact hfile
    · cases h

end Folio.Workspace
