import Folio.Proofs.Files.Directories

namespace Folio

namespace FileTree

/-- Whether what lies at a location is a directory, if anything lies there. -/
def kindAt (t : FileTree) (l : Location) : Option Bool := (t.lookup l).map Entry.isDirectory

variable {t t' : FileTree} {l : Location}

theorem kindAt_eq_true_iff : t.kindAt l = some true ↔ t.lookup l = some .directory := by
  unfold kindAt
  cases h : t.lookup l with
  | none => simp
  | some e => cases e <;> simp [Entry.isDirectory]

theorem kindAt_eq_none_iff : t.kindAt l = none ↔ t.lookup l = none := Option.map_eq_none_iff

theorem lookup_directory_congr (h : t'.kindAt l = t.kindAt l) :
    t'.lookup l = some .directory ↔ t.lookup l = some .directory := by
  rw [← kindAt_eq_true_iff, h, kindAt_eq_true_iff]

theorem lookup_none_congr (h : t'.kindAt l = t.kindAt l) : t'.lookup l = none ↔ t.lookup l = none := by
  rw [← kindAt_eq_none_iff, h, kindAt_eq_none_iff]

theorem isDirectory_congr (h : t'.kindAt l = t.kindAt l) : t'.isDirectory l = t.isDirectory l := by
  unfold isDirectory
  simp only [lookup_directory_congr h]

theorem mem_children_iff_kindAt {n : Text} : n ∈ t.children l ↔ t.kindAt (l ++ [n]) ≠ none := by
  rw [mem_children_iff, ne_eq, kindAt_eq_none_iff, ← ne_eq, Option.ne_none_iff_exists']

/-- The names in a directory are listed in order, so that they are the same list if they are the same
names. -/
theorem children_congr (h : ∀ n, t'.kindAt (l ++ [n]) = t.kindAt (l ++ [n])) :
    t'.children l = t.children l := by
  have hsame : ∀ n, n ∈ t'.children l ↔ n ∈ t.children l := by
    intro n
    rw [mem_children_iff_kindAt, mem_children_iff_kindAt, h]
  have hperm : (t'.children l).Perm (t.children l) :=
    (List.perm_ext_iff_of_nodup nodup_children nodup_children).2 hsame
  exact hperm.eq_of_pairwise (fun a b _ _ => Text.le_antisymm) sorted_children sorted_children

end FileTree

namespace Workspace

open Folio.Path

variable {w w' : Workspace} {l d : Location} {ss : List Text}

/-- Whether a walk goes on depends on the kinds of the entry that it is at and of the next one. -/
theorem stop?_congr {s : Text} (hkind : w'.tree.kindAt l = w.tree.kindAt l)
    (hnext : w'.tree.kindAt (step l s) = w.tree.kindAt (step l s)) : w'.stop? l s = w.stop? l s := by
  unfold stop?
  simp only [ne_eq, FileTree.lookup_directory_congr hkind]
  by_cases hs : isFiller s ∨ s = ['.', '.']
  · rw [if_pos hs, if_pos hs]
  · obtain ⟨hfiller, hdots⟩ := not_or.1 hs
    rw [step, if_neg hfiller, if_neg hdots] at hnext
    simp only [FileTree.lookup_none_congr hnext]

/-- A walk meets the same on its way in both workspaces if they hold entries of the same kinds wherever
it can come. -/
theorem walk_congr (inside : Location → Prop)
    (hkind : ∀ l, inside l → w'.tree.kindAt l = w.tree.kindAt l)
    (hstep : ∀ l, inside l → ∀ s ∈ ss, inside (step l s)) (hl : inside l) :
    w'.walk l ss = w.walk l ss := by
  induction ss generalizing l with
  | nil => rfl
  | cons s ss ih =>
    have hnext := hstep l hl s List.mem_cons_self
    have hrest : ∀ l, inside l → ∀ r ∈ ss, inside (step l r) :=
      fun l hl r hr => hstep l hl r (List.mem_cons_of_mem s hr)
    rw [walk_cons, walk_cons, stop?_congr (hkind l hl) (hkind _ hnext), ih hrest hnext]

theorem readAt_congr (h : w'.tree.lookup l = w.tree.lookup l) : w'.readAt l = w.readAt l := by
  rw [readAt, h, readAt]

theorem readAt_congr_of_not_file (h : w'.tree.kindAt l = w.tree.kindAt l)
    (hfile : ∀ c, w.tree.lookup l ≠ some (.file c)) : w'.readAt l = w.readAt l := by
  refine readAt_congr ?_
  cases he : w.tree.lookup l with
  | none => exact (FileTree.lookup_none_congr h).2 he
  | some e =>
    cases e with
    | directory => exact (FileTree.lookup_directory_congr h).2 he
    | file c => exact absurd he (hfile c)

/-- A path that is joined to one of a directory leads to the same place, or fails in the same way, if a
walk from there does. -/
theorem resolve_join_congr (hdir : w.tree.lookup d = some .directory)
    (hdir' : w'.tree.lookup d = some .directory) {q : Path} (hq : ¬ q.isAbsolute)
    (hwalk : w'.walk d q.segments = w.walk d q.segments) :
    w'.resolve ((pathOf d).join q) = w.resolve ((pathOf d).join q) ∧
      ∀ l, w.resolve ((pathOf d).join q) = .ok l → l = follow d q.segments := by
  obtain ⟨before, -, hsegments, -, hstart⟩ := exists_walk_join (resolve_pathOf hdir) hq
  obtain ⟨before', -, hsegments', -, hstart'⟩ := exists_walk_join (resolve_pathOf hdir') hq
  -- both walks come to the directory after the same segments
  obtain rfl : before = before' := List.append_cancel_right (hsegments.symm.trans hsegments')
  have hwhole {v : Workspace} (hv : v.walk (v.start ((pathOf d).join q)) before = .ok d) :
      v.walk (v.start ((pathOf d).join q)) ((pathOf d).join q).segments = v.walk d q.segments := by
    rw [hsegments, walk_append, hv]
    rfl
  constructor
  · unfold Workspace.resolve
    rw [hwhole hstart, hwhole hstart', hwalk]
  · intro l hl
    have hend := resolve_eq_ok hl
    rw [hwhole hstart] at hend
    exact walk_eq_follow hend

/-- The workspaces hold the same at a location and below it. -/
def AgreeBelow (d : Location) (w w' : Workspace) : Prop :=
  ∀ l, d <+: l → w'.tree.lookup l = w.tree.lookup l

theorem AgreeBelow.kindAt (h : AgreeBelow d w w') (hl : d <+: l) :
    w'.tree.kindAt l = w.tree.kindAt l := by
  unfold FileTree.kindAt
  rw [h l hl]

theorem step_below {s : Text} (hs : s ≠ ['.', '.']) (hl : d <+: l) : d <+: step l s := by
  rw [step, if_neg hs]
  split
  · exact hl
  · exact hl.trans (List.prefix_append l [s])

theorem follow_below (hss : ∀ s ∈ ss, s ≠ ['.', '.']) (hl : d <+: l) : d <+: follow l ss := by
  induction ss generalizing l with
  | nil => exact hl
  | cons s ss ih =>
    exact ih (fun r hr => hss r (List.mem_cons_of_mem s hr))
      (step_below (hss s List.mem_cons_self) hl)

/-- A path that stays below a directory leads to the same place, or fails in the same way, in all
workspaces that hold the same below it. -/
theorem AgreeBelow.resolve (h : AgreeBelow d w w') (hdir : w.tree.lookup d = some .directory)
    {q : Path} (hq : ¬ q.isAbsolute) (hdots : ∀ s ∈ q.segments, s ≠ ['.', '.']) :
    w'.resolve ((pathOf d).join q) = w.resolve ((pathOf d).join q) ∧
      ∀ l, w.resolve ((pathOf d).join q) = .ok l → d <+: l := by
  have hwalk : w'.walk d q.segments = w.walk d q.segments :=
    walk_congr (d <+: ·) (fun l hl => h.kindAt hl)
      (fun l hl s hs => step_below (hdots s hs) hl) List.prefix_rfl
  obtain ⟨hsame, hend⟩ := resolve_join_congr hdir ((h d List.prefix_rfl).trans hdir) hq hwalk
  refine ⟨hsame, fun l hl => ?_⟩
  rw [hend l hl]
  exact follow_below hdots List.prefix_rfl

/-- The workspaces hold the same wherever it is not below a location. -/
def AgreeOutside (b : Location) (w w' : Workspace) : Prop :=
  ∀ l, ¬ b <+: l.dropLast → w'.tree.lookup l = w.tree.lookup l

theorem AgreeOutside.trans {b : Location} {w'' : Workspace} (h : AgreeOutside b w w')
    (h' : AgreeOutside b w' w'') : AgreeOutside b w w'' := fun l hl => (h' l hl).trans (h l hl)

theorem AgreeOutside.lookup {b : Location} (h : AgreeOutside b w w') (hl : ¬ b <+: l) :
    w'.tree.lookup l = w.tree.lookup l :=
  h l fun hb => hl (hb.trans (List.dropLast_prefix l))

theorem AgreeOutside.kindAt {b : Location} (h : AgreeOutside b w w') (hl : ¬ b <+: l) :
    w'.tree.kindAt l = w.tree.kindAt l := by
  unfold FileTree.kindAt
  rw [h.lookup hl]

theorem AgreeOutside.walk {b : Location} (h : AgreeOutside b w w')
    (hss : ∀ s ∈ ss, s ≠ ['.', '.']) (hend : ¬ b <+: follow l ss) :
    w'.walk l ss = w.walk l ss := by
  induction ss generalizing l with
  | nil => rfl
  | cons s ss ih =>
    have hrest : ∀ r ∈ ss, r ≠ ['.', '.'] := fun r hr => hss r (List.mem_cons_of_mem s hr)
    rw [follow_cons] at hend
    -- whatever comes after a location on the way down lies below it
    have hnext : ¬ b <+: step l s := fun hb => hend (hb.trans (follow_below hrest List.prefix_rfl))
    have hhere : ¬ b <+: l := fun hb => hnext (step_below (hss s List.mem_cons_self) hb)
    rw [walk_cons, walk_cons, stop?_congr (h.kindAt hhere) (h.kindAt hnext), ih hrest hend]

/-- A path that goes down from a directory, and not to a location or below it, leads to the same place,
or fails in the same way, in all workspaces that hold the same elsewhere. -/
theorem AgreeOutside.resolve {b : Location} (h : AgreeOutside b w w')
    (hdir : w.tree.lookup d = some .directory) {q : Path} (hq : ¬ q.isAbsolute)
    (hdots : ∀ s ∈ q.segments, s ≠ ['.', '.']) (hend : ¬ b <+: follow d q.segments) :
    w'.resolve ((pathOf d).join q) = w.resolve ((pathOf d).join q) ∧
      ∀ l, w.resolve ((pathOf d).join q) = .ok l → ¬ b <+: l := by
  have hd : ¬ b <+: d := fun hb => hend (follow_below hdots hb)
  obtain ⟨hsame, hfollow⟩ :=
    resolve_join_congr hdir ((h.lookup hd).trans hdir) hq (h.walk hdots hend)
  refine ⟨hsame, fun l hl => ?_⟩
  rwa [hfollow l hl]

end Workspace
end Folio
