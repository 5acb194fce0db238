import Mathlib.Data.List.TakeWhile
import Folio.Proofs.Files.Components
import Folio.Proofs.Files.Growth

namespace Folio

namespace Path

/-- The parent of a path to a name, by its segments and characters. -/
theorem exists_parent? {p : Path} {first n : Text} {rest : List Text}
    (hp : p.segments = first :: (rest ++ [n])) (hn : ¬ isFiller n) :
    ∃ q, p.parent? = some q ∧ ¬ q.isEmpty ∧ q.isAbsolute = p.isAbsolute ∧
      (∀ c ∈ q.text, c = '/' ∨ c ∈ p.text) ∧
      (q.segments = first :: dropFillersEnd rest ∨
        q.segments = [[], []] ∧ first = [] ∧ dropFillersEnd rest = []) := by
  have hparent := parent?_of_segments hp hn
  have habsolute : p.isAbsolute ↔ first = [] := by
    rw [isAbsolute_iff, hp]
    obtain ⟨s, ss, hss⟩ := List.exists_cons_of_ne_nil (l := rest ++ [n]) (by simp)
    rw [hss]
    simp
  by_cases hroot : (dropFillersEnd rest).isEmpty && first.isEmpty
  · -- the root is spelled as two empty segments
    rw [if_pos hroot] at hparent
    rw [Bool.and_eq_true, List.isEmpty_iff, List.isEmpty_iff] at hroot
    refine ⟨_, hparent, by simp [isEmpty], ?_, by simp, Or.inr ⟨rfl, hroot.2, hroot.1⟩⟩
    rw [habsolute.2 hroot.2]
    rfl
  · rw [if_neg hroot] at hparent
    rw [Bool.and_eq_true, List.isEmpty_iff, List.isEmpty_iff, not_and] at hroot
    generalize hq : Path.mk (Text.joinWith ['/'] (first :: dropFillersEnd rest)) = q at hparent
    have hsegments : q.segments = first :: dropFillersEnd rest := by
      rw [← hq]
      exact segments_kept hp
    refine ⟨q, hparent, ?_, ?_, ?_, Or.inl hsegments⟩
    · intro hempty
      have hnil : q.segments = [[]] := by
        rw [segments, List.isEmpty_iff.1 hempty]
        rfl
      obtain ⟨rfl, hrest⟩ := List.cons.inj (hnil.symm.trans hsegments)
      exact hroot hrest.symm rfl
    · rw [Bool.eq_iff_iff, habsolute, isAbsolute_iff, hsegments]
      cases hk : dropFillersEnd rest with
      | nil => simpa using hroot hk
      | cons s ss => simp
    · rw [← hq]
      intro c hc
      refine (Text.mem_joinWith hc).imp List.mem_singleton.1 ?_
      rintro ⟨s, hs, hc⟩
      exact Text.mem_of_mem_splitOn (mem_segments_of_kept hp s hs) hc

end Path

namespace Workspace

open Folio.Path

variable {w w' : Workspace} {p q : Path} {l b : Location} {init names : List Text} {n : Text}

theorem readable_of_resolve (h : w.resolve p = .ok l) : ¬ p.isEmpty ∧ Char.ofNat 0 ∉ p.text := by
  unfold resolve at h
  split at h
  · cases h
  · rename_i hp
    split at h
    · cases h
    · rename_i hnul
      exact ⟨hp, fun hmem => hnul (List.contains_iff_mem.2 hmem)⟩

theorem walk_append_eq_ok {ss ts : List Text} {m : Location} :
    w.walk l (ss ++ ts) = .ok m ↔ ∃ k, w.walk l ss = .ok k ∧ w.walk k ts = .ok m := by
  rw [walk_append]
  cases w.walk l ss with
  | error e => exact iff_of_false (by rintro ⟨⟩) (by rintro ⟨k, ⟨⟩, _⟩)
  | ok k => exact ⟨fun h => ⟨k, rfl, h⟩, fun ⟨_, hk, h⟩ => Except.ok.inj hk ▸ h⟩

theorem walk_fillers {ss : List Text} (hss : ∀ s ∈ ss, isFiller s) {m : Location}
    (h : w.walk l ss = .ok m) : m = l := by
  rw [walk_eq_follow h, ← follow_filter, List.filter_eq_nil_iff.2 fun s hs => by simp [hss s hs],
    follow_nil]

/-- A relative path that is joined to one of a location is walked from that location. -/
theorem exists_walk_join (hp : w.resolve p = .ok b) (h : ¬ q.isAbsolute) :
    ∃ before, before ≠ [] ∧ (p.join q).segments = before ++ q.segments ∧
      (∀ s ∈ before, s ∈ p.segments) ∧ w.walk (w.start (p.join q)) before = .ok b := by
  obtain ⟨before, hbefore, hsegments, hcase⟩ := segments_join_of_ne (readable_of_resolve hp).1 h
  have hwalk := resolve_eq_ok hp
  rw [start_join h]
  refine ⟨before, hbefore, hsegments, fun s hs => ?_, ?_⟩
  · rcases hcase with hcase | hcase <;> rw [hcase]
    · exact hs
    · exact List.mem_append_left _ hs
  · rcases hcase with hcase | hcase
    · rwa [hcase] at hwalk
    · rw [hcase] at hwalk
      obtain ⟨k, hk, hlast⟩ := walk_append_eq_ok.1 hwalk
      rw [hk, ← walk_fillers (by simp [isFiller]) hlast]

/-- The path leads down from a directory by names. -/
structure Descends (w : Workspace) (p : Path) (b : Location) (names : List Text) : Prop where
  nonempty : ¬ p.isEmpty
  nul : Char.ofNat 0 ∉ p.text
  segments : ∃ before, before ≠ [] ∧ p.segments = before ++ names ∧ w.walk (w.start p) before = .ok b
  directory : w.tree.lookup b = some .directory

/-- Names are read from a directory that is there. -/
theorem descends_join (hp : w.resolve p = .ok b) (hdir : w.tree.lookup b = some .directory)
    (hnames : ∀ s ∈ names, IsSegment s) (hnul : ∀ s ∈ names, Char.ofNat 0 ∉ s) (hne : names ≠ []) :
    Descends w (p.join (ofNames names)) b names := by
  have hpnul := (readable_of_resolve hp).2
  obtain ⟨before, hbefore, hsegments, hmem, hwalk⟩ :=
    exists_walk_join hp (not_isAbsolute_ofNames hnames)
  rw [segments_ofNames hne hnames] at hsegments
  refine ⟨fun h => ?_, fun h => ?_, ⟨before, hbefore, hsegments, hwalk⟩, hdir⟩
  · have hnil : (p.join (ofNames names)).segments = [[]] := by
      rw [Path.segments, List.isEmpty_iff.1 h]
      rfl
    have hlength := congrArg List.length (hnil.symm.trans hsegments)
    have hpos := List.length_pos_iff.2 hbefore
    have hpos' := List.length_pos_iff.2 hne
    rw [List.length_append, List.length_singleton] at hlength
    omega
  · rw [← joinWith_segments, hsegments] at h
    rcases Text.mem_joinWith h with hslash | ⟨s, hs, hin⟩
    · exact absurd hslash (by decide)
    · rcases List.mem_append.1 hs with hs | hs
      · exact hpnul (Text.mem_of_mem_splitOn (hmem s hs) hin)
      · exact hnul s hs hin

theorem makeDirectories_of_ok (hp : ¬ p.isEmpty) (h : w.makeDirectory p = .ok w') :
    w.makeDirectories p = (w', none) := by
  unfold makeDirectories
  rw [if_neg hp, h]

theorem makeDirectories_of_error (hp : ¬ p.isEmpty) {e : FileFault} (h : w.makeDirectory p = .error e)
    (he : e ≠ .notFound) :
    w.makeDirectories p = (w, if w.isDirectory p then none else some e) := by
  unfold makeDirectories
  rw [if_neg hp, h]
  split
  · rename_i hnot
    exact absurd (Except.error.inj hnot) he
  · rfl

theorem makeDirectories_of_parent (hp : ¬ p.isEmpty) (h : w.makeDirectory p = .error .notFound)
    (hq : p.parent? = some q) (hmade : w.makeDirectories q = (w', none)) {w'' : Workspace}
    (hlast : w'.makeDirectory p = .ok w'') : w.makeDirectories p = (w'', none) := by
  rw [makeDirectories, if_neg hp, h]
  dsimp only
  split
  · rename_i hnone
    cases hq.symm.trans hnone
  · rename_i q' hq'
    obtain rfl : q = q' := Option.some.inj (hq.symm.trans hq')
    rw [hmade]
    dsimp only
    rw [hlast]

theorem isDirectory_iff : w.isDirectory p ↔
    ∃ l, w.resolve p = .ok l ∧ w.tree.lookup l = some .directory := by
  unfold isDirectory entry?
  cases w.resolve p with
  | error e => simp
  | ok l =>
    cases he : w.tree.lookup l with
    | none => simp [he]
    | some e => cases e <;> simp [he, Entry.isDirectory]

theorem exists_fillers (ss : List Text) : ∃ fillers, (∀ s ∈ fillers, isFiller s) ∧
    ss = (ss.reverse.dropWhile List.isEmpty).reverse ++ fillers := by
  refine ⟨(ss.reverse.takeWhile List.isEmpty).reverse, fun s hs => ?_, ?_⟩
  · rw [isFiller, List.mem_takeWhile_imp (List.mem_reverse.1 hs), Bool.true_or]
  · rw [← List.reverse_append, List.takeWhile_append_dropWhile, List.reverse_reverse]

theorem walk_of_fillers {ss : List Text} (hss : ∀ s ∈ ss, isFiller s)
    (hdir : w.tree.lookup l = some .directory) : w.walk l ss = .ok l := by
  induction ss with
  | nil => rfl
  | cons s ss ih =>
    have hfiller := hss s List.mem_cons_self
    rw [walk_step (stop?_eq_none_iff.2 ⟨hdir, Or.inl hfiller⟩), step_filler hfiller]
    exact ih fun t ht => hss t (List.mem_cons_of_mem s ht)

/-- Where the last of several segments leads, for a path that can be read. -/
theorem target_concat (hp : ¬ p.isEmpty) (hnul : Char.ofNat 0 ∉ p.text) {before : List Text} {s : Text}
    {m : Location} (h : w.walk (w.start p) before = .ok m) (hdir : w.tree.lookup m = some .directory) :
    w.target p (before ++ [s]) =
      if isFiller s || s = ['.', '.'] then .ok none
      else if maxNameSize < Text.byteSize s then .error .nameTooLong
      else .ok (some (m ++ [s])) := by
  unfold target
  rw [if_neg hp, if_neg (by rwa [List.contains_iff_mem]), List.dropLast_concat, h,
    List.getLast?_concat]
  dsimp only
  rw [if_neg (by rw [hdir]; simp)]

/-- A directory that is there is not made again. -/
theorem makeDirectory_of_isDirectory (h : w.isDirectory p) :
    ∃ e, w.makeDirectory p = .error e ∧ e ≠ .notFound := by
  obtain ⟨l, hl, hdir⟩ := isDirectory_iff.1 h
  obtain ⟨hp, hnul⟩ := readable_of_resolve hl
  -- the segments without the empty last ones lead to the same place
  obtain ⟨fillers, hfillers, hsplit⟩ := exists_fillers p.segments
  have hwalk := resolve_eq_ok hl
  rw [hsplit] at hwalk
  obtain ⟨k, hk, hlast⟩ := walk_append_eq_ok.1 hwalk
  obtain rfl : l = k := walk_fillers hfillers hlast
  unfold makeDirectory
  dsimp only
  generalize (p.segments.reverse.dropWhile List.isEmpty).reverse = kept at hk
  rcases List.eq_nil_or_concat kept with rfl | ⟨before, s, rfl⟩
  · obtain rfl : w.start p = l := Except.ok.inj hk
    have htarget : w.target p [] = .ok none := by
      unfold target
      rw [if_neg hp, if_neg (by rwa [List.contains_iff_mem]), List.dropLast_nil, walk]
      dsimp only
      rw [if_neg (by rw [hdir]; simp)]
      rfl
    rw [htarget]
    exact ⟨_, rfl, by simp⟩
  · rw [List.concat_eq_append] at hk ⊢
    obtain ⟨m, hm, hs⟩ := walk_append_eq_ok.1 hk
    obtain ⟨hmdir, hstep⟩ := walk_cons_eq_ok hs
    obtain rfl : step m s = l := Except.ok.inj hstep
    rw [target_concat hp hnul hm hmdir]
    by_cases hname : isFiller s || s = ['.', '.']
    · rw [if_pos hname]
      exact ⟨_, rfl, by simp⟩
    · rw [if_neg hname]
      by_cases hsize : maxNameSize < Text.byteSize s
      · rw [if_pos hsize]
        exact ⟨_, rfl, by simp⟩
      · rw [Bool.or_eq_true, not_or, decide_eq_true_eq] at hname
        rw [step, if_neg hname.1, if_neg hname.2] at hdir
        have hnot : ¬ w.tree.Admits (m ++ [s]) .directory := by
          rintro ⟨_, _, _, hnone | ⟨hfile, _⟩⟩
          · rw [hdir] at hnone
            cases hnone
          · rw [hdir] at hfile
            cases hfile
        rw [if_neg hsize]
        dsimp only
        rw [dif_neg hnot]
        exact ⟨_, rfl, by simp⟩

theorem makeDirectories_of_isDirectory (h : w.isDirectory p) : w.makeDirectories p = (w, none) := by
  obtain ⟨l, hl, _⟩ := isDirectory_iff.1 h
  have hp := (readable_of_resolve hl).1
  obtain ⟨e, he, hne⟩ := makeDirectory_of_isDirectory h
  rw [makeDirectories_of_error hp he hne, if_pos h]

/-- A directory that has been made is there. -/
theorem isDirectory_of_makeDirectory (h : w.makeDirectory p = .ok w') : w'.isDirectory p := by
  unfold makeDirectory at h
  dsimp only at h
  obtain ⟨fillers, hfillers, hsplit⟩ := exists_fillers p.segments
  generalize (p.segments.reverse.dropWhile List.isEmpty).reverse = kept at h hsplit
  split at h
  · cases h
  · cases h
  · rename_i l htarget
    split at h
    · rename_i ha
      obtain rfl := Except.ok.inj h
      obtain ⟨before, n, rfl, hn, hdots, hsize, hp, hnul, m, hm, hdir, rfl⟩ := target_eq_some htarget
      have hgrown := grown_put_directory ha fun _ => False
      have hthere : (w.tree.put (m ++ [n]) .directory ha).lookup (m ++ [n]) = some .directory := by
        rw [FileTree.lookup_put, if_pos rfl]
      refine isDirectory_iff.2 ⟨m ++ [n], ?_, hthere⟩
      rw [resolve, if_neg hp, if_neg hnul, hsplit, hgrown.start]
      refine walk_append_eq_ok.2 ⟨m ++ [n], walk_append_eq_ok.2 ⟨m, hgrown.walk hm, ?_⟩,
        walk_of_fillers hfillers hthere⟩
      rw [walk_name (hgrown.directory m hdir) hn hdots hsize (by simp [hthere])]
      rfl
    · cases h

theorem isDirectory_of_makeDirectories (hp : ¬ p.isEmpty) (h : w.makeDirectories p = (w', none)) :
    w'.isDirectory p := by
  have hsettle {v : Workspace} (hv : settled v p = (w', none)) : w'.isDirectory p := by
    unfold settled at hv
    cases hm : v.makeDirectory p with
    | ok v' =>
      rw [hm] at hv
      obtain rfl := (Prod.mk.inj hv).1
      exact isDirectory_of_makeDirectory hm
    | error e =>
      rw [hm] at hv
      obtain ⟨rfl, hdir⟩ := Prod.mk.inj hv
      by_contra hnot
      rw [if_neg hnot] at hdir
      cases hdir
  unfold makeDirectories at h
  rw [if_neg hp] at h
  split at h
  · split at h
    · cases h
    · dsimp only at h
      split at h
      · cases h
      · exact hsettle h
  · exact hsettle h

/-- No file stands on the way down from a directory. -/
def Clear (w : Workspace) (b : Location) (names : List Text) : Prop :=
  ∀ m, m <+: names → ∀ c, w.tree.lookup (b ++ m) ≠ some (.file c)

theorem Clear.of_directory (h : w.tree.lookup (b ++ names) = some .directory) : Clear w b names := by
  rintro m ⟨rest, rfl⟩ c hc
  rw [← List.append_assoc] at h
  by_cases hrest : rest = []
  · rw [hrest, List.append_nil, hc] at h
    cases h
  · rw [lookup_of_append h hrest] at hc
    cases hc

theorem clear_concat_iff : Clear w b (init ++ [n]) ↔
    Clear w b init ∧ ∀ c, w.tree.lookup (b ++ init ++ [n]) ≠ some (.file c) := by
  constructor
  · intro h
    refine ⟨fun m hm => h m (hm.trans (List.prefix_append init [n])), fun c => ?_⟩
    rw [List.append_assoc]
    exact h _ (List.prefix_refl _) c
  · rintro ⟨hinit, hlast⟩ m hm c
    rcases List.prefix_concat_iff.1 hm with rfl | hm
    · rw [← List.append_assoc]
      exact hlast c
    · exact hinit m hm c

theorem lookup_append_none {m : Location} (h : w.tree.lookup l = none) :
    w.tree.lookup (l ++ m) = none := by
  by_cases hm : m = []
  · rw [hm, List.append_nil, h]
  · cases he : w.tree.lookup (l ++ m) with
    | none => rfl
    | some e =>
      rw [lookup_of_append he hm] at h
      cases h

/-- The way down from a directory is clear if it is from the first name on. -/
theorem clear_cons_iff {n : Text} (hdir : w.tree.lookup b = some .directory) :
    Clear w b (n :: names) ↔ Clear w (b ++ [n]) names := by
  constructor
  · intro h m hm c
    have hfirst := h (n :: m) (List.cons_prefix_cons.2 ⟨rfl, hm⟩) c
    rwa [List.append_cons] at hfirst
  · intro h m hm c
    rcases List.prefix_cons_iff.1 hm with rfl | ⟨t, rfl, ht⟩
    · rw [List.append_nil, hdir]
      simp
    · rw [List.append_cons]
      exact h t ht c

/-- Walking down to what is not there ends at a file on the way, or where something is missing. -/
theorem walk_missing (hdir : w.tree.lookup b = some .directory) (hnames : ∀ n ∈ names, IsName n)
    (hnone : w.tree.lookup (b ++ names) = none) :
    (Clear w b names ∧ w.walk b names = .error .notFound) ∨
      (¬ Clear w b names ∧ w.walk b names = .error .notDirectory) := by
  induction names generalizing b with
  | nil =>
    rw [List.append_nil, hdir] at hnone
    cases hnone
  | cons n ns ih =>
    obtain ⟨hn, hrest⟩ := List.forall_mem_cons.1 hnames
    rw [List.append_cons] at hnone
    rw [clear_cons_iff hdir]
    -- the way ends at a name that is missing, or at a file
    cases he : w.tree.lookup (b ++ [n]) with
    | none =>
      have hstop : w.stop? b n = some .notFound := by
        unfold stop?
        rw [if_neg (Decidable.not_not.2 hdir), if_neg (not_or.2 ⟨not_isFiller hn, hn.ne_dots⟩),
          if_neg (Nat.not_lt.2 hn.size_le), if_pos he]
      refine Or.inl ⟨?_, by rw [walk_cons, hstop]⟩
      intro m _ c
      rw [lookup_append_none he]
      simp
    | some e =>
      rw [walk_name hdir (not_isFiller hn) hn.ne_dots hn.size_le (by simp [he])]
      cases e with
      | directory => exact ih he hrest hnone
      | file c =>
        have hns : ns ≠ [] := by
          rintro rfl
          rw [List.append_nil, he] at hnone
          cases hnone
        refine Or.inr ⟨fun h => h [] List.nil_prefix c (by rwa [List.append_nil]), ?_⟩
        obtain ⟨s, ss, rfl⟩ := List.exists_cons_of_ne_nil hns
        rw [walk, if_pos (by rw [he]; simp)]

/-- A path that leads down from a directory by one name more than another one does. -/
theorem Descends.parent (h : Descends w p b (names ++ [n])) (hn : ¬ isFiller n)
    (hnames : ∀ m ∈ names, IsName m) : ∃ q, p.parent? = some q ∧ Descends w q b names := by
  obtain ⟨hp, hnul, ⟨before, hbefore, hsegments, hwalk⟩, hdir⟩ := h
  obtain ⟨first, rest, rfl⟩ := List.exists_cons_of_ne_nil hbefore
  rw [List.cons_append, ← List.append_assoc] at hsegments
  obtain ⟨q, hparent, hq, habsolute, hchars, hkept⟩ := exists_parent? hsegments hn
  have hstart : w.start q = w.start p := by rw [start, habsolute, start]
  refine ⟨q, hparent, hq, fun hmem => ?_, ?_, hdir⟩
  · rcases hchars _ hmem with hslash | hmem
    · exact absurd hslash (by decide)
    · exact hnul hmem
  rw [hstart]
  rcases List.eq_nil_or_concat names with rfl | ⟨init, m, rfl⟩
  · -- the fillers that fall away at the end lead nowhere else
    rw [List.append_nil] at hkept
    obtain ⟨fillers, hfillers⟩ := dropFillersEnd_append rest
    rw [hfillers, ← List.cons_append] at hwalk
    obtain ⟨k, hk, _⟩ := walk_append_eq_ok.1 hwalk
    have hkb : k = b := by
      rw [walk_eq_follow hk, walk_eq_follow hwalk, List.cons_append, ← hfillers, follow_cons,
        follow_cons, follow_dropFillersEnd]
    rw [hkb] at hk
    rcases hkept with hkept | ⟨hkept, rfl, hnil⟩
    · exact ⟨_, List.cons_ne_nil first _, by rw [hkept, List.append_nil], hk⟩
    · rw [hnil] at hk
      have hb : b = w.start p := walk_fillers (by simp [isFiller]) hk
      have htwice : w.walk (w.start p) ([[]] ++ [[]]) = .ok b :=
        walk_append_eq_ok.2 ⟨b, hk, hb ▸ hk⟩
      exact ⟨[[], []], by simp, by rw [hkept, List.append_nil], htwice⟩
  · rw [List.concat_eq_append, ← List.append_assoc,
      dropFillersEnd_concat (not_isFiller (hnames m (by simp)))] at hkept
    rcases hkept with hkept | ⟨_, _, hnil⟩
    · refine ⟨_, List.cons_ne_nil first rest, ?_, hwalk⟩
      rw [hkept, List.concat_eq_append, List.cons_append, List.append_assoc]
    · exact absurd hnil (by simp)

theorem Descends.resolve (h : Descends w p b names) : w.resolve p = w.walk b names := by
  obtain ⟨hp, hnul, ⟨before, _, hsegments, hwalk⟩, _⟩ := h
  rw [Workspace.resolve, if_neg hp, if_neg (by rwa [List.contains_iff_mem]), hsegments, walk_append,
    hwalk]
  rfl

theorem Descends.isDirectory_iff (h : Descends w p b names) (hnames : ∀ m ∈ names, IsName m) :
    w.isDirectory p ↔ w.tree.lookup (b ++ names) = some .directory := by
  rw [Workspace.isDirectory_iff, h.resolve]
  constructor
  · rintro ⟨l, hl, hdir⟩
    rwa [← follow_names hnames, ← walk_eq_follow hl]
  · intro hdir
    exact ⟨_, walk_names hdir, hdir⟩

theorem Descends.makeDirectory_eq (h : Descends w p b (init ++ [n])) (hn : n ≠ []) :
    w.makeDirectory p = match w.target p p.segments with
      | .error e => .error e
      | .ok none => .error .exists
      | .ok (some l) =>
        if h : w.tree.Admits l .directory then .ok { w with tree := w.tree.put l .directory h }
        else .error .exists := by
  obtain ⟨before, _, hsegments, _⟩ := h.segments
  have hlast : (p.segments.reverse.dropWhile List.isEmpty).reverse = p.segments := by
    rw [hsegments, ← List.append_assoc, List.reverse_append, List.reverse_singleton,
      List.singleton_append, List.dropWhile_cons_of_neg (by simpa using hn), List.reverse_cons,
      List.reverse_reverse]
  unfold makeDirectory
  rewrite [hlast]
  rfl

/-- In a directory that is there one more directory is made, if nothing is in its place. -/
theorem Descends.makeDirectory_of_parent (h : Descends w p b (init ++ [n])) (hn : IsName n)
    (hinit : w.tree.lookup (b ++ init) = some .directory) :
    w.makeDirectory p = if ha : w.tree.Admits (b ++ init ++ [n]) .directory then
        .ok { w with tree := w.tree.put (b ++ init ++ [n]) .directory ha }
      else .error .exists := by
  obtain ⟨before, _, hsegments, hwalk⟩ := h.segments
  have hparent : w.walk (w.start p) (before ++ init) = .ok (b ++ init) :=
    walk_append_eq_ok.2 ⟨b, hwalk, walk_names hinit⟩
  have hname : ¬ (isFiller n || n = ['.', '.']) := by
    rw [Bool.or_eq_true, not_or, decide_eq_true_eq]
    exact ⟨not_isFiller hn, hn.ne_dots⟩
  rw [h.makeDirectory_eq hn.1, hsegments, ← List.append_assoc,
    target_concat h.nonempty h.nul hparent hinit, if_neg hname, if_neg (Nat.not_lt.2 hn.size_le)]

/-- Where the directory above is missing, nothing is made. -/
theorem Descends.makeDirectory_of_missing (h : Descends w p b (init ++ [n])) (hn : IsName n)
    (hnames : ∀ m ∈ init, IsName m) (hinit : w.tree.lookup (b ++ init) ≠ some .directory) :
    (Clear w b init ∧ w.makeDirectory p = .error .notFound) ∨
      (¬ Clear w b init ∧ w.makeDirectory p = .error .notDirectory) := by
  obtain ⟨before, _, hsegments, hwalk⟩ := h.segments
  have hparent : w.walk (w.start p) (before ++ init) = w.walk b init := by
    rw [walk_append, hwalk]
    rfl
  have hmake : w.makeDirectory p = (w.walk b init).bind fun _ => .error .notDirectory := by
    rw [h.makeDirectory_eq hn.1, hsegments, ← List.append_assoc]
    unfold target
    rw [if_neg h.nonempty, if_neg (by rw [List.contains_iff_mem]; exact h.nul), List.dropLast_concat,
      hparent]
    cases hw : w.walk b init with
    | error e => rfl
    | ok l =>
      rw [walk_eq_follow hw, follow_names hnames]
      dsimp only
      rw [if_pos hinit]
      rfl
  cases he : w.tree.lookup (b ++ init) with
  | none =>
    rcases walk_missing h.directory hnames he with ⟨hclear, hw⟩ | ⟨hclear, hw⟩
    · exact Or.inl ⟨hclear, by rw [hmake, hw, Except.bind]⟩
    · exact Or.inr ⟨hclear, by rw [hmake, hw, Except.bind]⟩
  | some e =>
    rw [walk_names he] at hmake
    cases e with
    | directory => exact absurd he hinit
    | file c => exact Or.inr ⟨fun hclear => hclear init (List.prefix_refl init) c he, hmake⟩

/-- What making directories on the way down from one that is there comes to. -/
inductive Made (w : Workspace) (b : Location) (names : List Text) :
    Workspace × Option FileFault → Prop
  | made {w' : Workspace} : Clear w b names → w'.home = w.home →
      (∀ l, w'.tree.lookup l =
        if w.tree.lookup l = none ∧ l <+: b ++ names then some .directory else w.tree.lookup l) →
      Made w b names (w', none)
  | obstructed : ¬ Clear w b names →
      Made w b names
        (w, some (if w.tree.lookup (b ++ names) = none then .notDirectory else .exists))

theorem Made.of_directory (h : w.tree.lookup (b ++ names) = some .directory) :
    Made w b names (w, none) := by
  refine .made (Clear.of_directory h) rfl fun l => (if_neg ?_).symm
  rintro ⟨hnone, rest, hrest⟩
  rw [← hrest, lookup_append_none hnone] at h
  cases h

theorem admits_directory (hn : IsName n) (hdir : w.tree.lookup l = some .directory)
    (hnone : w.tree.lookup (l ++ [n]) = none) : w.tree.Admits (l ++ [n]) .directory := by
  refine ⟨by simp, ?_, by rwa [List.dropLast_concat], Or.inl hnone⟩
  intro m hm
  rcases List.mem_append.1 hm with hm | hm
  · exact FileTree.isName_of_lookup hdir m hm
  · rwa [List.mem_singleton.1 hm]

/-- One directory is made in one that is there. -/
theorem Made.of_put (hdir : w.tree.lookup (b ++ init) = some .directory)
    (ha : w.tree.Admits (b ++ init ++ [n]) .directory) :
    Made w b (init ++ [n]) ({ w with tree := w.tree.put (b ++ init ++ [n]) .directory ha }, none) := by
  have hnone : w.tree.lookup (b ++ init ++ [n]) = none := by
    rcases ha.2.2.2 with hnone | ⟨_, hfile⟩
    · exact hnone
    · cases hfile
  refine .made (clear_concat_iff.2 ⟨Clear.of_directory hdir, fun c => by rw [hnone]; simp⟩) rfl
    fun l => ?_
  rw [FileTree.lookup_put, ← List.append_assoc]
  by_cases hl : l = b ++ init ++ [n]
  · rw [if_pos hl, if_pos ⟨hl ▸ hnone, hl ▸ List.prefix_refl _⟩]
  · rw [if_neg hl, if_neg]
    rintro ⟨hmissing, hprefix⟩
    obtain ⟨rest, hrest⟩ := (List.prefix_concat_iff.1 hprefix).resolve_left hl
    rw [← hrest, lookup_append_none hmissing] at hdir
    cases hdir

/-- All directories are made if those above the last are made first. -/
theorem Made.concat {w'' : Workspace} (h : Made w b init (w', none))
    (h' : Made w' b (init ++ [n]) (w'', none)) (hnone : w.tree.lookup (b ++ init ++ [n]) = none) :
    Made w b (init ++ [n]) (w'', none) := by
  cases h with
  | made hclear hhome hlookup =>
    cases h' with
    | made _ hhome' hlookup' =>
      refine .made (clear_concat_iff.2 ⟨hclear, fun c => by rw [hnone]; simp⟩) (hhome'.trans hhome)
        fun l => ?_
      have hmore (hl : l <+: b ++ init) : l <+: b ++ (init ++ [n]) := by
        rw [← List.append_assoc]
        exact hl.trans (List.prefix_append _ _)
      have hfirst := hlookup l
      rw [hlookup']
      by_cases hl : w.tree.lookup l = none ∧ l <+: b ++ init
      · rw [if_pos hl] at hfirst
        rw [hfirst, if_neg (by simp), if_pos ⟨hl.1, hmore hl.2⟩]
      · rw [if_neg hl] at hfirst
        rw [hfirst]

theorem Made.clear (h : Made w b names (w', none)) : Clear w b names := by
  cases h with
  | made hclear _ _ => exact hclear

theorem Made.home (h : Made w b names (w', none)) : w'.home = w.home := by
  cases h with
  | made _ hhome _ => exact hhome

theorem Made.directory (h : Made w b names (w', none)) :
    w'.tree.lookup (b ++ names) = some .directory := by
  cases h with
  | made hclear _ hlookup =>
    rw [hlookup]
    split
    · rfl
    · rename_i hthere
      cases he : w.tree.lookup (b ++ names) with
      | none => exact absurd ⟨he, List.prefix_refl _⟩ hthere
      | some e =>
        cases e with
        | directory => rfl
        | file c => exact absurd he (hclear names (List.prefix_refl _) c)

theorem Made.lookup_below (h : Made w b names (w', none)) {m : Location} (hm : m ≠ []) :
    w'.tree.lookup (b ++ names ++ m) = w.tree.lookup (b ++ names ++ m) := by
  cases h with
  | made _ _ hlookup =>
    rw [hlookup, if_neg]
    rintro ⟨_, hprefix⟩
    have hlength := hprefix.length_le
    have hpos := List.length_pos_iff.2 hm
    rw [List.length_append] at hlength
    omega

/-- A path leads down from a directory as long as there is more and more. -/
theorem Descends.grown {pages : Location → Prop} (h : Descends w p b names) (hg : Grown pages w w') :
    Descends w' p b names := by
  obtain ⟨hp, hnul, ⟨before, hne, hsegments, hwalk⟩, hdir⟩ := h
  exact ⟨hp, hnul, ⟨before, hne, hsegments, by rw [hg.start]; exact hg.walk hwalk⟩,
    hg.directory b hdir⟩

theorem Descends.makeDirectories_of_error (h : Descends w p b names) (hnames : ∀ m ∈ names, IsName m)
    (hdir : w.tree.lookup (b ++ names) ≠ some .directory) {e : FileFault}
    (he : w.makeDirectory p = .error e) (hne : e ≠ .notFound) : w.makeDirectories p = (w, some e) := by
  rw [Workspace.makeDirectories_of_error h.nonempty he hne,
    if_neg fun hd => hdir ((h.isDirectory_iff hnames).1 hd)]

/-- Only the last directory is missing, or a file is in its place. -/
theorem Descends.made_of_parent (h : Descends w p b (init ++ [n]))
    (hnames : ∀ m ∈ init ++ [n], IsName m)
    (hdir : w.tree.lookup (b ++ (init ++ [n])) ≠ some .directory)
    (hinit : w.tree.lookup (b ++ init) = some .directory) :
    Made w b (init ++ [n]) (w.makeDirectories p) := by
  have hn : IsName n := hnames n (by simp)
  have hmake := h.makeDirectory_of_parent hn hinit
  cases he : w.tree.lookup (b ++ init ++ [n]) with
  | none =>
    have ha := admits_directory hn hinit he
    rw [dif_pos ha] at hmake
    rw [makeDirectories_of_ok h.nonempty hmake]
    exact .of_put hinit ha
  | some e =>
    rw [List.append_assoc] at he
    cases e with
    | directory => exact absurd he hdir
    | file c =>
      have ha : ¬ w.tree.Admits (b ++ init ++ [n]) .directory := by
        rw [List.append_assoc]
        rintro ⟨_, _, _, hnone | ⟨_, hfile⟩⟩
        · rw [he] at hnone
          cases hnone
        · cases hfile
      rw [dif_neg ha] at hmake
      rw [h.makeDirectories_of_error hnames hdir hmake (by simp)]
      have hmade := Made.obstructed fun hclear : Clear w b (init ++ [n]) =>
        hclear _ (List.prefix_refl _) c he
      rwa [if_neg (by rw [he]; simp)] at hmade

theorem made_makeDirectories (h : Descends w p b names) (hnames : ∀ m ∈ names, IsName m) :
    Made w b names (w.makeDirectories p) := by
  -- from the end: the directories above are made before the last one
  induction names using List.reverseRecOn generalizing p with
  | nil =>
    have hdir : w.tree.lookup (b ++ []) = some .directory := by simpa using h.directory
    rw [makeDirectories_of_isDirectory ((h.isDirectory_iff hnames).2 hdir)]
    exact .of_directory hdir
  | append_singleton init n ih =>
    have hn : IsName n := hnames n (by simp)
    have hinitnames : ∀ m ∈ init, IsName m := fun m hm => hnames m (List.mem_append_left _ hm)
    by_cases hdir : w.tree.lookup (b ++ (init ++ [n])) = some .directory
    · rw [makeDirectories_of_isDirectory ((h.isDirectory_iff hnames).2 hdir)]
      exact .of_directory hdir
    by_cases hinit : w.tree.lookup (b ++ init) = some .directory
    · exact h.made_of_parent hnames hdir hinit
    have hnone : w.tree.lookup (b ++ (init ++ [n])) = none := by
      rw [← List.append_assoc]
      cases he : w.tree.lookup (b ++ init ++ [n]) with
      | none => rfl
      | some e => exact absurd (lookup_of_append he (by simp)) hinit
    rcases h.makeDirectory_of_missing hn hinitnames hinit with ⟨hclear, hmake⟩ | ⟨hclear, hmake⟩
    · -- the directories above are made first
      obtain ⟨q, hq, hdescends⟩ := h.parent (not_isFiller hn) hinitnames
      have hmade := ih hdescends hinitnames
      have hgrown := grown_makeDirectories w q fun _ => False
      generalize hmq : w.makeDirectories q = made at hmade hgrown
      cases hmade with
      | obstructed hnot => exact absurd hclear hnot
      | @made w' _ hhome hlookup =>
        have hmade : Made w b init (w', none) := .made hclear hhome hlookup
        have hinit' := hmade.directory
        rw [← List.append_assoc] at hnone
        have hnone' := (hmade.lookup_below (List.cons_ne_nil n [])).trans hnone
        have ha := admits_directory hn hinit' hnone'
        have hlast := (h.grown hgrown).makeDirectory_of_parent hn hinit'
        rw [dif_pos ha] at hlast
        rw [makeDirectories_of_parent h.nonempty hmake hq hmq hlast]
        exact hmade.concat (.of_put hinit' ha) hnone
    · rw [h.makeDirectories_of_error hnames hdir hmake (by simp)]
      have hmade := Made.obstructed fun hc : Clear w b (init ++ [n]) =>
        hclear (clear_concat_iff.1 hc).1
      rwa [if_pos hnone] at hmade

end Workspace
end Folio
