import Folio.Proofs.Files.Directories
import Folio.Proofs.Site.Scan

namespace Folio

namespace Path

/-- Of two paths of names the one comes first that does so name by name. -/
def Before (p q : Path) : Prop :=
  ∃ ns ms : List Text, p.components = ns.map .name ∧ q.components = ms.map .name ∧ ns < ms

theorem Before.asymm {p q : Path} (h : p.Before q) : ¬ q.Before p := by
  obtain ⟨ns, ms, hp, hq, hlt⟩ := h
  rintro ⟨ms', ns', hq', hp', hlt'⟩
  have hinjective : Function.Injective (List.map Component.name) :=
    List.map_injective_iff.2 fun _ _ h => Component.name.inj h
  obtain rfl := hinjective (hp.symm.trans hp')
  obtain rfl := hinjective (hq.symm.trans hq')
  exact List.lt_irrefl ns (List.lt_trans hlt hlt')

theorem components_ofNames {ns : List Text} (hne : ns ≠ []) (h : ∀ n ∈ ns, IsName n) :
    (ofNames ns).components = ns.map .name := by
  have hcomponent (ms : List Text) (hms : ∀ m ∈ ms, IsName m) : ms.map componentOf = ms.map .name :=
    List.map_congr_left fun m hm => if_neg (hms m hm).ne_dots
  have hsegments := segments_ofNames hne fun n hn => isSegment_of_isName (h n hn)
  obtain ⟨first, rest, rfl⟩ := List.exists_cons_of_ne_nil hne
  obtain ⟨hfirst, hrest⟩ := List.forall_mem_cons.1 h
  have hkept : rest.filter (fun s => !isFiller s) = rest :=
    List.filter_eq_self.2 fun s hs => by simpa using not_isFiller (hrest s hs)
  unfold components
  rw [hsegments]
  dsimp only
  rw [if_neg (by simpa using hfirst.1), if_neg hfirst.2.1, hkept, hcomponent rest hrest,
    ← List.map_singleton, hcomponent [first] (by simpa using hfirst), ← List.map_append]
  rfl

end Path

namespace Scan

open Folio.Path Workspace

variable {w : Workspace} {input : Path} {extension : Text} {skipped : List Text} {l names : Location}

/-- The path of a document leads to it. -/
theorem resolve_document (hl : w.resolve input = .ok l) (hdir : w.tree.lookup l = some .directory)
    (h : DocumentBelow w extension skipped l names) :
    w.resolve (document input names).path = .ok (l ++ names) := by
  obtain ⟨content, hfile⟩ := h.1.2.1
  obtain ⟨init, n, stem, rfl, hnames, _⟩ := h.exists_name
  have hdescends := descends_join hl hdir (fun s hs => isSegment_of_isName (hnames s hs))
    (fun s hs => (hnames s hs).nul_not_mem) (by simp)
  exact hdescends.resolve.trans (walk_names hfile)

/-- The names of a document: those of directories that are not skipped, and a stem with the
extension. -/
theorem documentBelow_iff : DocumentBelow w extension skipped l names ↔
    ∃ above stem content, names = above ++ [stem ++ '.' :: extension] ∧ stem ≠ [] ∧ '.' ∉ extension ∧
      (∀ m ∈ above, m ∉ skipped) ∧ w.tree.lookup (l ++ names) = some (.file content) := by
  constructor
  · intro h
    obtain ⟨content, hfile⟩ := h.1.2.1
    obtain ⟨above, n, stem, rfl, -, hsplit⟩ := h.exists_name
    obtain ⟨rfl, hstem, hdot⟩ := splitExtension_eq_iff.1 hsplit
    refine ⟨above, stem, content, rfl, hstem, hdot, fun m hm => ?_, hfile⟩
    have hskip := h.1.2.2 m (by rwa [List.dropLast_concat])
    simpa using hskip
  · rintro ⟨above, stem, content, rfl, hstem, hdot, hskip, hfile⟩
    have hnames : ∀ m ∈ above ++ [stem ++ '.' :: extension], IsName m := fun m hm =>
      FileTree.isName_of_lookup hfile m (List.mem_append_right l hm)
    have hlast := hnames _ (List.mem_append_right above (List.mem_singleton.2 rfl))
    refine ⟨⟨by simp, ⟨content, hfile⟩, fun m hm => ?_⟩, ?_⟩
    · rw [List.dropLast_concat] at hm
      simpa using hskip m hm
    · exact (hasExtension_iff
        (segments_ofNames (by simp) fun m hm => isSegment_of_isName (hnames m hm))
        (not_isFiller hlast) hlast.ne_dots).2 ⟨stem, splitExtension_eq_iff.2 ⟨rfl, hstem, hdot⟩⟩

/-- A scan of a directory finds the files below it that have the extension and are in no skipped
directory, each once, with paths that lead to them, in the order of their relative paths. -/
theorem run_finds (w : Workspace) (input : Path) (extension : Text) (skipped : List Text)
    (h : w.isDirectory input) :
    ∃ l documents, w.resolve input = .ok l ∧
      run w input extension skipped = .ok ⟨input, documents⟩ ∧
      (∀ d, d ∈ documents ↔ ∃ above stem content,
        w.tree.lookup (l ++ (above ++ [stem ++ '.' :: extension])) = some (.file content) ∧
          stem ≠ [] ∧ '.' ∉ extension ∧ (∀ m ∈ above, m ∉ skipped) ∧
          d.relative = ofNames (above ++ [stem ++ '.' :: extension]) ∧
          d.path = input.join d.relative) ∧
      documents.Nodup ∧ documents.Pairwise (fun d e => d.relative.Before e.relative) ∧
      ∀ d ∈ documents, w.resolve d.path = .ok (l ++ d.relative.segments) := by
  obtain ⟨l, hl, hdir, hrun⟩ := @run_directory w input extension skipped h
  have hnames {names : Location} (hm : names ∈ namesBelow w extension skipped l) :
      names ≠ [] ∧ ∀ n ∈ names, IsName n := by
    have hbelow := mem_namesBelow_iff.1 hm
    obtain ⟨_, _, _, _, hall, _⟩ := hbelow.exists_name
    exact ⟨hbelow.1.1, hall⟩
  refine ⟨l, _, hl, hrun, fun d => ?_, nodup_documents, ?_, ?_⟩
  · rw [List.mem_map]
    simp only [mem_namesBelow_iff, documentBelow_iff]
    constructor
    · rintro ⟨_, ⟨above, stem, content, rfl, hstem, hdot, hskip, hfile⟩, rfl⟩
      exact ⟨above, stem, content, hfile, hstem, hdot, hskip, rfl, rfl⟩
    · rintro ⟨above, stem, content, hfile, hstem, hdot, hskip, hrelative, hpath⟩
      refine ⟨_, ⟨above, stem, content, rfl, hstem, hdot, hskip, hfile⟩, ?_⟩
      obtain ⟨path, relative⟩ := d
      dsimp only at hrelative hpath
      rw [hpath, hrelative]
      rfl
  · refine List.pairwise_map.2 (sorted_namesBelow.imp_of_mem ?_)
    intro names names' hm hm' hlt
    exact ⟨names, names', components_ofNames (hnames hm).1 (hnames hm).2,
      components_ofNames (hnames hm').1 (hnames hm').2, hlt⟩
  · intro d hd
    obtain ⟨names, hm, rfl⟩ := List.mem_map.1 hd
    rw [resolve_document hl hdir (mem_namesBelow_iff.1 hm)]
    have hsegments : (document input names).relative.segments = names :=
      segments_ofNames (hnames hm).1 fun n hn => isSegment_of_isName ((hnames hm).2 n hn)
    rw [hsegments]

/-- A scan of what is no directory finds the file that the path leads to. -/
theorem run_file (hfile : ¬ w.isDirectory input) {scan : Scan}
    (hscan : run w input extension skipped = .ok scan) :
    ∃ before init n content, w.resolve input = .ok (init ++ [n]) ∧
      w.tree.lookup (init ++ [n]) = some (.file content) ∧ input.segments = before ++ [n] ∧
      scan = ⟨directoryOf input, [⟨input, ⟨n⟩⟩]⟩ := by
  unfold run at hscan
  cases hl : w.resolve input with
  | error fault =>
    rw [hl] at hscan
    cases hscan
  | ok l =>
    obtain ⟨e, he⟩ := exists_of_resolve hl
    cases e with
    | directory => exact absurd (isDirectory_iff.2 ⟨l, hl, he⟩) hfile
    | file content =>
      have hnot : ¬ w.tree.isDirectory l := by simp [FileTree.isDirectory, he]
      obtain ⟨before, n, hsegments, hn, rfl⟩ :=
        walk_file (resolve_eq_ok hl) he (Text.splitOn_ne_nil '/' input.text)
      have hname : IsName n := FileTree.isName_of_lookup he n (by simp)
      rw [hl] at hscan
      dsimp only at hscan
      rw [if_neg hnot, fileName?_of_segments hsegments hn, if_neg hname.ne_dots] at hscan
      exact ⟨before, _, n, content, rfl, he, hsegments, (Except.ok.inj hscan).symm⟩

/-- A site whose documents come in another order than their paths do as texts, with one of them named
like a directory that is skipped. -/
def garden : Workspace where
  tree := {
    entries := [(["site".toList, "a.sphst".toList], .file (.text [])),
      (["site".toList, "a-b.sphst".toList], .file (.bytes [255])),
      (["site".toList, "a".toList, "b.sphst".toList], .file (.text [])),
      (["site".toList, "drafts".toList, "c.sphst".toList], .file (.text [])),
      (["site".toList, ".sphst".toList], .file (.text [])),
      (["site".toList, "a".toList], .directory), (["site".toList, "drafts".toList], .directory),
      (["site".toList], .directory)]
    nodup := by decide
    named := by decide
    closed := by decide }
  home := []

theorem run_garden : garden.isDirectory ⟨"./site/".toList⟩ ∧
    run garden ⟨"./site/".toList⟩ "sphst".toList ["site".toList, "drafts".toList, "a.sphst".toList] =
      .ok ⟨⟨"./site/".toList⟩, [["a".toList, "b.sphst".toList], ["a-b.sphst".toList],
        ["a.sphst".toList]].map (document ⟨"./site/".toList⟩)⟩ := by
  have hdir : garden.isDirectory ⟨"./site/".toList⟩ := by decide
  have hsite : garden.resolve ⟨"./site/".toList⟩ = .ok ["site".toList] := by decide
  obtain ⟨l, documents, hl, hrun, hmem, hnodup, hsorted, -⟩ := run_finds garden _ "sphst".toList
    ["site".toList, "drafts".toList, "a.sphst".toList] hdir
  obtain rfl : ["site".toList] = l := Except.ok.inj (hsite.symm.trans hl)
  refine ⟨hdir, hrun.trans ?_⟩
  suffices hall : documents = [["a".toList, "b.sphst".toList], ["a-b.sphst".toList],
      ["a.sphst".toList]].map (document ⟨"./site/".toList⟩) by rw [hall]
  have hexpected : ([["a".toList, "b.sphst".toList], ["a-b.sphst".toList],
      ["a.sphst".toList]].map (document ⟨"./site/".toList⟩)).Pairwise
        fun d e => d.relative.Before e.relative := by
    have hbefore {ns ms : Location} (hn : (ofNames ns).components = ns.map .name)
        (hm : (ofNames ms).components = ms.map .name) (hlt : ns < ms) :
        (document ⟨"./site/".toList⟩ ns).relative.Before (document ⟨"./site/".toList⟩ ms).relative :=
      ⟨ns, ms, hn, hm, hlt⟩
    simp only [List.map_cons, List.map_nil, List.pairwise_cons, List.forall_mem_cons,
      List.not_mem_nil, false_implies, implies_true, and_true, List.Pairwise.nil]
    exact ⟨⟨hbefore (by decide) (by decide) (by decide), hbefore (by decide) (by decide) (by decide)⟩,
      hbefore (by decide) (by decide) (by decide)⟩
  refine List.Perm.eq_of_pairwise (fun _ _ _ _ h h' => absurd h' h.asymm) hsorted hexpected
    ((List.perm_ext_iff_of_nodup hnodup (by decide)).2 fun d => (hmem d).trans ?_)
  constructor
  · rintro ⟨above, stem, content, hfile, hstem, -, hskip, hrelative, hpath⟩
    have hdrop : (above ++ [stem ++ '.' :: "sphst".toList]).dropLast = above := List.dropLast_concat
    have hlast : (above ++ [stem ++ '.' :: "sphst".toList]).getLast? =
        some (stem ++ '.' :: "sphst".toList) := List.getLast?_concat
    rw [hrelative] at hpath
    obtain rfl : d = document _ (above ++ [stem ++ '.' :: "sphst".toList]) := by
      cases d
      cases hrelative
      cases hpath
      rfl
    generalize above ++ [stem ++ '.' :: "sphst".toList] = names at *
    have hentry := FileTree.mem_of_lookup hfile (by simp)
    simp only [garden, List.cons_append, List.nil_append, List.mem_cons, Prod.mk.injEq,
      List.cons.injEq, true_and, reduceCtorEq, and_false, List.not_mem_nil, or_false] at hentry
    rcases hentry with ⟨rfl, -⟩ | ⟨rfl, -⟩ | ⟨rfl, -⟩ | ⟨rfl, -⟩ | ⟨rfl, -⟩
    · simp
    · simp
    · simp
    · exact absurd (hskip "drafts".toList (hdrop ▸ by decide)) (by decide)
    · have hempty : [] ++ '.' :: "sphst".toList = stem ++ '.' :: "sphst".toList :=
        Option.some.inj hlast
      exact absurd (List.append_cancel_right hempty).symm hstem
  · intro hd
    simp only [List.map_cons, List.map_nil, List.mem_cons, List.not_mem_nil, or_false] at hd
    rcases hd with rfl | rfl | rfl
    · exact ⟨["a".toList], "b".toList, .text [], by decide, by decide, by decide, by decide, rfl, rfl⟩
    · exact ⟨[], "a-b".toList, .bytes [255], by decide, by decide, by decide, by decide, rfl, rfl⟩
    · exact ⟨[], "a".toList, .text [], by decide, by decide, by decide, by decide, rfl, rfl⟩

end Scan
end Folio
