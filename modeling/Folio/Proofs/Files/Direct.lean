import Folio.Proofs.Files.Directories

namespace Folio

/-- The path goes up first, and then down. -/
def Path.Direct (p : Path) : Prop :=
  ∃ ups downs, p.segments = ups ++ downs ∧ (∀ s ∈ ups, isFiller s ∨ s = ['.', '.']) ∧
    ∀ s ∈ downs, s ≠ ['.', '.']

namespace Workspace

open Folio.Path

variable {w w' : Workspace} {p q : Path} {l b m : Location} {ss : List Text} {t : Text}

/-- The file that a path leads to, if it can be read. -/
def open? (w : Workspace) (p : Path) : Option (Location × Text) :=
  match w.resolve p with
  | .error _ => none
  | .ok l => match w.readAt l with
    | .error _ => none
    | .ok t => some (l, t)

theorem open?_eq_some_iff : w.open? p = some (l, t) ↔ w.resolve p = .ok l ∧ w.readAt l = .ok t := by
  unfold open?
  cases w.resolve p with
  | error fault => simp
  | ok k =>
    cases hk : w.readAt k with
    | error fault => grind
    | ok s => grind

theorem readAt_eq_ok_iff : w.readAt l = .ok t ↔ w.tree.lookup l = some (.file (.text t)) := by
  refine ⟨lookup_of_readAt, fun h => ?_⟩
  rw [readAt, h]

/-- Going up from a directory leads to a directory. -/
theorem walk_ups (hss : ∀ s ∈ ss, isFiller s ∨ s = ['.', '.'])
    (hdir : w.tree.lookup l = some .directory) :
    ∃ m, w.walk l ss = .ok m ∧ w.tree.lookup m = some .directory := by
  induction ss generalizing l with
  | nil => exact ⟨l, rfl, hdir⟩
  | cons s ss ih =>
    have hrest : ∀ r ∈ ss, isFiller r ∨ r = ['.', '.'] := fun r hr => hss r (List.mem_cons_of_mem s hr)
    have hgo : w.stop? l s = none :=
      stop?_eq_none_iff.2 ⟨hdir, (hss s List.mem_cons_self).imp_right Or.inl⟩
    rw [walk_step hgo]
    apply ih hrest
    by_cases hs : isFiller s
    · rwa [step_filler hs]
    · rw [step, if_neg hs, if_pos ((hss s List.mem_cons_self).resolve_left hs)]
      exact FileTree.lookup_dropLast hdir

theorem exists_follow (hss : ∀ s ∈ ss, s ≠ ['.', '.']) (l : Location) :
    ∃ m, follow l ss = l ++ m := by
  refine ⟨_, (follow_filter l ss).symm.trans (follow_of_names fun s hs => ?_)⟩
  obtain ⟨hmem, hfiller⟩ := List.mem_filter.1 hs
  exact ⟨by simpa using hfiller, hss s hmem⟩

theorem directory_of_append (h : w.tree.lookup (l ++ m) = some .directory) :
    w.tree.lookup l = some .directory := by
  by_cases hm : m = []
  · rwa [hm, List.append_nil] at h
  · exact lookup_of_append h hm

/-- Going down to a directory that is there. -/
theorem walk_down_directory (hss : ∀ s ∈ ss, s ≠ ['.', '.'])
    (hdir : w.tree.lookup (follow l ss) = some .directory) : w.walk l ss = .ok (follow l ss) := by
  induction ss generalizing l with
  | nil => rfl
  | cons s ss ih =>
    have hrest : ∀ r ∈ ss, r ≠ ['.', '.'] := fun r hr => hss r (List.mem_cons_of_mem s hr)
    obtain ⟨m, hm⟩ := exists_follow hrest (step l s)
    have hstep : w.tree.lookup (step l s) = some .directory := by
      rw [follow_cons, hm] at hdir
      exact directory_of_append hdir
    rw [follow_cons] at hdir ⊢
    have hgo : w.stop? l s = none := by
      apply stop?_eq_none_iff.2
      by_cases hs : isFiller s
      · rw [step_filler hs] at hstep
        exact ⟨hstep, Or.inl hs⟩
      · rw [step, if_neg hs, if_neg (hss s List.mem_cons_self)] at hstep
        have hname : IsName s := FileTree.isName_of_lookup hstep s (by simp)
        exact ⟨directory_of_append hstep, Or.inr (Or.inr ⟨hname.size_le, by simp [hstep]⟩)⟩
    rw [walk_step hgo]
    exact ih hrest hdir

/-- Going down to a file that is there. -/
theorem walk_down_file {before : List Text} {n : Text} {c : Content}
    (hss : ∀ s ∈ before ++ [n], s ≠ ['.', '.']) (hn : ¬ isFiller n)
    (hfile : w.tree.lookup (follow l (before ++ [n])) = some (.file c)) :
    w.walk l (before ++ [n]) = .ok (follow l (before ++ [n])) := by
  have hlast : follow l (before ++ [n]) = follow l before ++ [n] := by
    rw [follow_append, follow_cons, follow_nil, step, if_neg hn, if_neg (hss n (by simp))]
  rw [hlast] at hfile ⊢
  have hbefore := walk_down_directory (fun s hs => hss s (List.mem_append_left _ hs))
    (lookup_of_append hfile (by simp))
  exact walk_append_eq_ok.2 ⟨_, hbefore, walk_names hfile⟩

/-- A path that is joined to one of a directory goes on from a directory. -/
theorem exists_walk_directory (hb : w.tree.lookup b = some .directory) (q : Path) :
    ∃ before l, ((pathOf b).join q).segments = before ++ q.segments ∧
      w.walk (w.start ((pathOf b).join q)) before = .ok l ∧ w.tree.lookup l = some .directory := by
  by_cases hq : q.isAbsolute
  · have hjoin : (pathOf b).join q = q := by
      unfold join
      rw [if_pos hq]
    rw [hjoin]
    have hstart : w.start q = [] := if_pos hq
    exact ⟨[], [], rfl, by rw [hstart, walk], rfl⟩
  · obtain ⟨before, _, hsegments, _, hwalk⟩ := exists_walk_join (resolve_pathOf hb) hq
    exact ⟨before, b, hsegments, hwalk, hb⟩

/-- A direct path that leads to a file in a workspace that has grown led there before, if the file was
there. -/
theorem Grown.resolve_direct {pages : Location → Prop} (h : Grown pages w w')
    (hb : w.tree.lookup b = some .directory) (hq : q.Direct)
    (hresolve : w'.resolve ((pathOf b).join q) = .ok l) (hread : w'.readAt l = .ok t)
    (hfile : w.readAt l = .ok t) : w.resolve ((pathOf b).join q) = .ok l := by
  obtain ⟨before, k, hsegments, hwalk, hk⟩ := exists_walk_directory hb q
  obtain ⟨ups, downs, hsplit, hups, hdowns⟩ := hq
  obtain ⟨m, hm, hdir⟩ := walk_ups hups hk
  have hup : w.walk (w.start ((pathOf b).join q)) (before ++ ups) = .ok m :=
    walk_append_eq_ok.2 ⟨k, hwalk, hm⟩
  -- the way up is as it was, and so is the way down to the file
  rw [hsplit, ← List.append_assoc] at hsegments
  have hwhole := resolve_eq_ok hresolve
  rw [hsegments, h.start] at hwhole
  obtain ⟨m', hm', hdown⟩ := walk_append_eq_ok.1 hwhole
  obtain rfl : m = m' := Except.ok.inj ((h.walk hup).symm.trans hm')
  rw [readAt_eq_ok_iff] at hfile
  have hne : downs ≠ [] := by
    rintro rfl
    obtain rfl : m = l := Except.ok.inj hdown
    rw [hdir] at hfile
    cases hfile
  obtain ⟨init, n, rfl, hn, _⟩ := walk_file hdown (lookup_of_readAt hread) hne
  rw [walk_eq_follow hdown] at hfile
  have hlast := walk_down_file hdowns hn hfile
  rw [← walk_eq_follow hdown] at hlast
  obtain ⟨hempty, hnul⟩ := readable_of_resolve hresolve
  rw [Workspace.resolve, if_neg hempty, if_neg (by rwa [List.contains_iff_mem]), hsegments]
  exact walk_append_eq_ok.2 ⟨m, hup, hlast⟩

/-- What is read through a direct path is not changed by directories that are made, nor by files with
other names than the one that the path ends with. -/
theorem Grown.open?_eq {pages : Location → Prop} (h : Grown pages w w')
    (hb : w.tree.lookup b = some .directory) (hq : q.Direct)
    (hpages : ∀ before n init, q.segments = before ++ [n] → ¬ isFiller n → n ≠ ['.', '.'] →
      ¬ pages (init ++ [n])) :
    w'.open? ((pathOf b).join q) = w.open? ((pathOf b).join q) := by
  have hsame {v : Workspace} {l : Location} {t : Text}
      (hv : v.open? ((pathOf b).join q) = some (l, t)) : w'.readAt l = .ok t ↔ w.readAt l = .ok t := by
    obtain ⟨hresolve, hread⟩ := open?_eq_some_iff.1 hv
    obtain ⟨before, n, init, hlast, hn, hdots, rfl⟩ :=
      exists_last_of_join hresolve (lookup_of_readAt hread)
    rw [readAt_eq_ok_iff, readAt_eq_ok_iff]
    exact h.same _ _ (hpages before n init hlast hn hdots)
  ext ⟨l, t⟩
  constructor
  · intro hopen
    obtain ⟨hresolve, hread⟩ := open?_eq_some_iff.1 hopen
    have hfile := (hsame hopen).1 hread
    exact open?_eq_some_iff.2 ⟨h.resolve_direct hb hq hresolve hread hfile, hfile⟩
  · intro hopen
    obtain ⟨hresolve, hread⟩ := open?_eq_some_iff.1 hopen
    exact open?_eq_some_iff.2 ⟨h.resolve hresolve, (hsame hopen).2 hread⟩

end Workspace
end Folio
