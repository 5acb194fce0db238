import Mathlib.Data.List.Permutation
import Folio.Proofs.Site.Steady

/-! Builds in different orders. Where no page stands in the way of another and no document compiles
otherwise after others have been built, each document is built as it is built alone; so the order is
not seen in the tree nor in the report. -/
namespace Folio.Build

open Folio.Path Workspace

variable {c : Compiler} {w w' w₀ : Workspace} {us : List Workspace} {p input output : Path}
  {b l : Location} {m extension : Text} {d : SourceDocument} {ds : List SourceDocument}

section One

variable {v : Workspace} (hfound : Found v input extension ds) (hd : d ∈ ds)
  (hb : w₀.resolve output = .ok b) (hdir : w₀.tree.lookup b = some .directory)
include hfound hd hb hdir

/-- A document is built as it is built alone. -/
theorem merged_one {pages : Location → Prop} (hmerged : Merged w₀ us w)
    (hus : Merged.Apart w₀ b us (pageNames d)) (hgrown : Grown pages w₀ w)
    (hcompile : (c.compileFile w d.path).value = (c.compileFile w₀ d.path).value) :
    (one c output w d).value.2 = (one c output w₀ d).value.2 ∧
      Merged w₀ (us ++ [(one c output w₀ d).value.1]) (one c output w d).value.1 := by
  rw [one_eq, one_eq, hcompile]
  cases (c.compileFile w₀ d.path).value with
  | error fault => exact ⟨rfl, hmerged.concat_self⟩
  | ok page =>
    dsimp only
    split
    · exact ⟨rfl, hmerged.concat_self⟩
    · obtain ⟨init, m, hpage, hpaged⟩ := paged_document hfound hd hb hdir hgrown page.html
      obtain ⟨init₀, m₀, hpage₀, hpaged₀⟩ :=
        paged_document hfound hd hb hdir (Grown.refl (fun _ => False) w₀) page.html
      rw [hpage] at hus hpage₀
      obtain ⟨rfl, hlast⟩ := List.append_inj' hpage₀ rfl
      obtain rfl := List.singleton_inj.1 hlast
      obtain ⟨hfault, hmore⟩ := hmerged.step hus hpaged hpaged₀
      refine ⟨?_, hmore⟩
      rw [hfault]

end One

/-- No page takes the place of a directory on the way to another page, unless that is there. -/
def Unobstructed (w₀ : Workspace) (output : Path) (ds : List SourceDocument) : Prop :=
  ∀ d ∈ ds, ∀ e ∈ ds, OutOfWay w₀ (w₀.lexical output) (pageNames d) (pageNames e)

theorem all_concat (ds : List SourceDocument) (d : SourceDocument) :
    (all c output w (ds ++ [d])).value =
      ((one c output (all c output w ds).value.1 d).value.1,
        (all c output w ds).value.2 ++ [(one c output (all c output w ds).value.1 d).value.2]) := by
  rw [all_append, all_cons, all_nil]

/-- A run does with each document what is done with it alone. -/
theorem all_merged {v : Workspace} (hfound : Found v input extension ds) (houtput : w₀.isDirectory output)
    (hfree : Unobstructed w₀ output ds) (hsteady : Steady c output w₀ ds)
    {before after : List SourceDocument} (hperm : (before ++ after).Perm ds) :
    (all c output w₀ before).value.2 = before.map (fun d => (one c output w₀ d).value.2) ∧
      Merged w₀ (before.map fun d => (one c output w₀ d).value.1)
        (all c output w₀ before).value.1 := by
  induction before using List.reverseRecOn generalizing after with
  | nil => exact ⟨rfl, .nil w₀⟩
  | append_singleton before d ih =>
    rw [List.append_assoc, List.singleton_append] at hperm
    obtain ⟨hevents, hmerged⟩ := ih hperm
    obtain ⟨b, hb, hdir⟩ := isDirectory_iff.1 houtput
    have hlexical : b = w₀.lexical output := resolve_eq_lexical hb
    have hd : d ∈ ds := hperm.mem_iff.1 (by simp)
    have hapart : Merged.Apart w₀ b (before.map fun d => (one c output w₀ d).value.1)
        (pageNames d) := by
      intro u hu
      obtain ⟨e, he, rfl⟩ := List.mem_map.1 hu
      have heds : e ∈ ds := hperm.mem_iff.1 (by simp [he])
      refine ⟨pageNames e, changes_one hfound heds hb hdir, hlexical ▸ hfree e heds d hd,
        hlexical ▸ hfree d hd e heds, fun heq => ?_⟩
      -- a document comes only once
      obtain rfl := hfound.pageNames_injective heds hd heq
      have hnodup := hperm.nodup_iff.2 hfound.nodup
      exact List.disjoint_of_nodup_append hnodup he List.mem_cons_self
    obtain ⟨hevent, hmore⟩ := merged_one hfound hd hb hdir hmerged hapart
      (all_grown c output w₀ before) (hsteady before d after hperm)
    rw [all_concat, List.map_append, List.map_append, List.map_singleton, List.map_singleton,
      hevents, hevent]
    exact ⟨rfl, hmore⟩

/-- What is merged is determined by what it is merged from. -/
theorem Merged.lookup_unique {us' : List Workspace} (h : Merged w₀ us w) (h' : Merged w₀ us' w')
    (hus : ∀ u, u ∈ us ↔ u ∈ us') : w.tree.lookup l = w'.tree.lookup l := by
  by_cases hsame : ∀ u ∈ us, u.tree.lookup l = w₀.tree.lookup l
  · rw [h.same l hsame, h'.same l fun u hu => hsame u ((hus u).2 hu)]
  · push Not at hsame
    obtain ⟨u, hu, hne⟩ := hsame
    rw [h.changed u hu l hne, h'.changed u ((hus u).1 hu) l hne]

theorem lookup_zip_map (f : SourceDocument → BuildEvent) (hd : d ∈ ds) :
    (ds.zip (ds.map f)).lookup d = some (f d) := by
  induction ds with
  | nil => cases hd
  | cons e es ih =>
    rw [List.map_cons, List.zip_cons_cons, List.lookup_cons]
    by_cases hde : d = e
    · rw [hde, beq_self_eq_true]
    · rw [beq_false_of_ne hde]
      exact ih ((List.mem_cons.1 hd).resolve_left hde)

/-- A build in any order reports of each document what is done with it alone, and leaves what all
that changes. -/
theorem runIn_merged {order : List SourceDocument → List SourceDocument}
    (horder : ∀ ds, (order ds).Perm ds) (hdir : w.isDirectory input) {skipped : List Text}
    {scan : Scan} (hscan : Scan.run w input c.extension skipped = .ok scan)
    (hmake : w.makeDirectories output = (w₀, none)) (houtput : ¬ output.isEmpty)
    (hfree : Unobstructed w₀ output scan.documents)
    (hsteady : Steady c output w₀ scan.documents) :
    ∃ w', runIn order c w input output skipped =
        (w', .ok ⟨output, scan.documents.map fun d => (one c output w₀ d).value.2⟩) ∧
      Merged w₀ ((order scan.documents).map fun d => (one c output w₀ d).value.1) w' := by
  obtain ⟨root, ds⟩ := scan
  have hfound : Found w input c.extension ds := found_run hdir hscan (.refl ds)
  have hperm : (order ds ++ []).Perm ds := by
    rw [List.append_nil]
    exact horder ds
  obtain ⟨hevents, hmerged⟩ :=
    all_merged hfound (isDirectory_of_makeDirectories houtput hmake) hfree hsteady hperm
  -- the events are put back into the order of the scan
  have hreport : ds.filterMap (fun d =>
      ((order ds).zip (all c output w₀ (order ds)).value.2).lookup d) =
      ds.map fun d => (one c output w₀ d).value.2 := by
    rw [hevents]
    refine Eq.trans (List.filterMap_congr fun d hd => ?_) (congrFun List.filterMap_eq_map ds)
    exact lookup_zip_map (fun d => (one c output w₀ d).value.2) ((horder ds).mem_iff.2 hd)
  refine ⟨_, ?_, hmerged⟩
  unfold runIn
  rw [hscan, hmake]
  dsimp only
  rw [hreport]

/-- Builds in two orders report the same and leave the same, where no page stands in the way of
another and no document compiles otherwise after others have been built. -/
theorem runIn_order_irrelevant {order order' : List SourceDocument → List SourceDocument}
    (horder : ∀ ds, (order ds).Perm ds) (horder' : ∀ ds, (order' ds).Perm ds)
    (hdir : w.isDirectory input) {skipped : List Text} {scan : Scan}
    (hscan : Scan.run w input c.extension skipped = .ok scan) (houtput : ¬ output.isEmpty)
    (hfree : Unobstructed (w.makeDirectories output).1 output scan.documents)
    (hsteady : Steady c output (w.makeDirectories output).1 scan.documents) :
    (runIn order c w input output skipped).2 = (runIn order' c w input output skipped).2 ∧
      ∀ l, (runIn order c w input output skipped).1.tree.lookup l =
        (runIn order' c w input output skipped).1.tree.lookup l := by
  generalize hmake : w.makeDirectories output = made at hfree hsteady
  obtain ⟨w₀, _ | fault⟩ := made
  · obtain ⟨u, hu, hmerged⟩ := runIn_merged horder hdir hscan hmake houtput hfree hsteady
    obtain ⟨u', hu', hmerged'⟩ := runIn_merged horder' hdir hscan hmake houtput hfree hsteady
    rw [hu, hu']
    refine ⟨rfl, fun l => hmerged.lookup_unique hmerged' fun v => ?_⟩
    exact (((horder _).trans (horder' _).symm).map _).mem_iff
  · -- nothing is built
    unfold runIn
    rw [hscan, hmake]
    exact ⟨rfl, fun _ => rfl⟩

/-- Two documents, one of which imports the other, and that one lists the directory. -/
def pair : Workspace where
  tree := {
    entries := [(["a.sphst".toList], .file (.text "import b".toList)),
      (["b.sphst".toList], .file (.text "script\n\tlist()".toList)), (["out".toList], .directory)]
    nodup := by decide
    named := by decide
    closed := by decide }
  home := []

/-- Both documents lie right in the directory that is scanned. -/
theorem exists_scan_pair : ∃ scan, Scan.run pair ⟨['.']⟩ "sphst".toList [] = .ok scan ∧
    ∀ d ∈ scan.documents, (pageNames d).dropLast = [] ∧ ∃ n, pair.resolve d.path = .ok [n] := by
  have hhome : pair.resolve ⟨['.']⟩ = .ok [] := by decide
  obtain ⟨l, hl, -, hscan⟩ := @Scan.run_directory pair ⟨['.']⟩ "sphst".toList [] (by decide)
  obtain rfl : [] = l := Except.ok.inj (hhome.symm.trans hl)
  refine ⟨_, hscan, fun d hd => ?_⟩
  obtain ⟨names, hnames, rfl⟩ := List.mem_map.1 hd
  obtain ⟨⟨hne, ⟨content, hfile⟩, _⟩, _⟩ := Scan.mem_namesBelow_iff.1 hnames
  have hmem : (names, Entry.file content) ∈ pair.tree.entries := FileTree.mem_of_lookup hfile hne
  simp only [pair, List.mem_cons, Prod.mk.injEq, List.not_mem_nil, or_false, reduceCtorEq,
    and_false] at hmem
  rcases hmem with ⟨rfl, _⟩ | ⟨rfl, _⟩
  · exact ⟨by decide, "a.sphst".toList, by decide⟩
  · exact ⟨by decide, "b.sphst".toList, by decide⟩

theorem mem_nodes_pair {k : Location} {source : Text} {n : Node} (hk : pair.readAt k = .ok source)
    (hn : n ∈ (nodesOf Registry.builtin source).value) :
    n = .scalar Kind.importKind ['b'] ∨ n = .scalar Kind.script "list()".toList := by
  have himport : (nodesOf Registry.builtin "import b".toList).value =
      [.scalar Kind.importKind ['b']] :=
    nodesOf_importLine Registry.builtin (by decide) (by decide) (by decide)
  have hscript : (nodesOf Registry.builtin "script\n\tlist()".toList).value =
      [.scalar Kind.script "list()".toList] := by decide +kernel
  have hmem := Import.mem_of_readAt hk
  simp only [pair, List.mem_cons, Prod.mk.injEq, Entry.file.injEq, Content.text.injEq,
    List.not_mem_nil, or_false, reduceCtorEq, and_false] at hmem
  rcases hmem with ⟨-, rfl⟩ | ⟨-, rfl⟩
  · rw [himport, List.mem_singleton] at hn
    exact Or.inl hn
  · rw [hscript, List.mem_singleton] at hn
    exact Or.inr hn

theorem allDirect_pair : Import.AllDirect Registry.builtin "sphst".toList pair := by
  have hb : Import.classify (Import.reference (.scalar Kind.importKind ['b'])) "sphst".toList =
      .document ⟨"b.sphst".toList⟩ := by decide
  intro l source hl n hn hkind path hpath
  rcases mem_nodes_pair hl hn with rfl | rfl
  · obtain rfl := Reference.document.inj (hb.symm.trans hpath)
    exact ⟨[], ["b.sphst".toList], by decide, by decide, by decide⟩
  · exact absurd hkind (by decide)

/-- A script that lists the directory of its document does not look below it. -/
theorem listsApart_pair {l : Location} (hl : l.dropLast = []) :
    ListsApart scripted pair ["out".toList] l := by
  refine .of_documents fun k source hk n hn hkind a ha => ?_
  rcases mem_nodes_pair hk hn with rfl | rfl
  · exact absurd hkind (by decide)
  · obtain ⟨line, hline, number, argument, ⟨-, hcall⟩, rfl⟩ := ha
    obtain rfl : line = "list()".toList := List.mem_singleton.1 hline
    obtain rfl : none = argument := (Script.Call.mk.inj (Except.ok.inj hcall)).2
    rw [hl]
    decide

theorem runIn_order_irrelevant_pair : pair.isDirectory ⟨['.']⟩ ∧ ∃ scan,
    Scan.run pair ⟨['.']⟩ "sphst".toList [] = .ok scan ∧
    Unobstructed (pair.makeDirectories ⟨"out".toList⟩).1 ⟨"out".toList⟩ scan.documents ∧
    ∀ c ∈ [Compiler.usual, scripted],
      Steady c ⟨"out".toList⟩ (pair.makeDirectories ⟨"out".toList⟩).1 scan.documents ∧
      (runIn id c pair ⟨['.']⟩ ⟨"out".toList⟩ []).2 =
        (runIn List.reverse c pair ⟨['.']⟩ ⟨"out".toList⟩ []).2 ∧
      ∀ l, (runIn id c pair ⟨['.']⟩ ⟨"out".toList⟩ []).1.tree.lookup l =
        (runIn List.reverse c pair ⟨['.']⟩ ⟨"out".toList⟩ []).1.tree.lookup l := by
  have hdir : pair.isDirectory ⟨['.']⟩ := by decide
  have houtput : pair.isDirectory ⟨"out".toList⟩ := by decide
  have hmake := makeDirectories_of_isDirectory houtput
  have hne : ¬ (Path.mk "out".toList).isEmpty := by decide
  have hid (ds : List SourceDocument) : (id ds).Perm ds := .refl ds
  obtain ⟨scan, hscan, hdocuments⟩ := exists_scan_pair
  have hfree : Unobstructed (pair.makeDirectories ⟨"out".toList⟩).1 ⟨"out".toList⟩
      scan.documents := by
    intro d _ e he hprefix
    rw [(hdocuments e he).1, List.prefix_nil] at hprefix
    exact absurd hprefix (Text.splitOn_ne_nil '/' _)
  have husual : Steady Compiler.usual ⟨"out".toList⟩ (pair.makeDirectories ⟨"out".toList⟩).1
      scan.documents := steady_of_direct Script.blind_idle (by decide) hdir hscan allDirect_pair
  have hscripted : Steady scripted ⟨"out".toList⟩ (pair.makeDirectories ⟨"out".toList⟩).1
      scan.documents := by
    refine steady_of_apart rfl (by decide) hdir hscan allDirect_pair (by rw [hmake]; exact houtput)
      fun d hd l hl => ?_
    rw [hmake] at hl ⊢
    obtain ⟨n, hn⟩ := (hdocuments d hd).2
    obtain rfl : [n] = l := Except.ok.inj (hn.symm.trans hl)
    exact listsApart_pair rfl
  refine ⟨hdir, scan, hscan, hfree, fun c hc => ?_⟩
  rcases List.mem_pair.1 hc with rfl | rfl
  · exact ⟨husual, runIn_order_irrelevant hid List.reverse_perm hdir hscan hne hfree husual⟩
  · exact ⟨hscripted, runIn_order_irrelevant hid List.reverse_perm hdir hscan hne hfree hscripted⟩

/-- A directory with the name of a page. -/
def crossing : Workspace where
  tree := {
    entries := [(["a.sphst".toList], .file (.text [])),
      (["a.html".toList, "b.sphst".toList], .file (.text [])), (["a.html".toList], .directory),
      (["out".toList], .directory)]
    nodup := by decide
    named := by decide
    closed := by decide }
  home := []

theorem perm_crossing : (Scan.namesBelow crossing "sphst".toList [] []).Perm
    [["a.sphst".toList], ["a.html".toList, "b.sphst".toList]] := by
  refine (List.perm_ext_iff_of_nodup Scan.nodup_namesBelow (by decide)).2 fun names => ?_
  rw [Scan.mem_namesBelow_iff, List.mem_cons, List.mem_singleton]
  constructor
  · rintro ⟨⟨hne, ⟨content, hfile⟩, _⟩, _⟩
    have hmem : (names, Entry.file content) ∈ crossing.tree.entries :=
      FileTree.mem_of_lookup hfile hne
    simp only [crossing, List.mem_cons, Prod.mk.injEq, List.not_mem_nil, or_false, reduceCtorEq,
      and_false] at hmem
    exact hmem.imp And.left And.left
  · rintro (rfl | rfl) <;> exact ⟨⟨by decide, ⟨.text [], by decide⟩, by decide⟩, by decide⟩

theorem compileFile_empty (hl : w.resolve p = .ok l) (hs : w.readAt l = .ok []) :
    (Compiler.usual.compileFile w p).value = .ok ⟨[], none, false, []⟩ := by
  have hempty : (nodesOf Compiler.usual.registry []).value = [] := by decide +kernel
  rw [Compiler.compileFile_readable hl hs, hempty, Import.expand_nil]
  rfl

theorem one_empty (hl : w.resolve d.path = .ok l) (hs : w.readAt l = .ok []) :
    (one Compiler.usual output w d).value =
      ((writePage w (outputPath output d.relative) []).1,
        match (writePage w (outputPath output d.relative) []).2 with
        | some fault => .failed d.relative ("failed to write ".toList ++
            (outputPath output d.relative).text ++ ": ".toList ++ fault.message)
        | none => .written d.relative (d.relative.withExtension pageExtension) none) := by
  rw [one_eq, compileFile_empty hl hs]
  rfl

/-- Two documents in the order of the scan, and the other way around. -/
theorem runIn_two {e : SourceDocument} (hne : d ≠ e) {root : Path}
    (hscan : Scan.run w input c.extension [] = .ok ⟨root, [d, e]⟩)
    (hmake : w.makeDirectories output = (w₀, none)) :
    (runIn id c w input output []).2 =
      .ok ⟨output, [(one c output w₀ d).value.2,
        (one c output (one c output w₀ d).value.1 e).value.2]⟩ ∧
    (runIn List.reverse c w input output []).2 =
      .ok ⟨output, [(one c output (one c output w₀ e).value.1 d).value.2,
        (one c output w₀ e).value.2]⟩ := by
  have hde : (d == e) = false := beq_false_of_ne hne
  have hed : (e == d) = false := beq_false_of_ne hne.symm
  unfold runIn
  rw [hscan, hmake]
  have hreverse : [d, e].reverse = [e, d] := rfl
  simp only [id, hreverse, all_cons, all_nil, List.zip_cons_cons, List.filterMap_cons,
    List.filterMap_nil, List.lookup_cons, beq_self_eq_true, hde, hed, and_self]

/-- The page of a document is a file if that document is built first. -/
theorem one_crossing_first : ∃ out, (one Compiler.usual ⟨"out".toList⟩ crossing
    (Scan.document ⟨['.']⟩ ["a.sphst".toList])).value.2 = .written ⟨"a.sphst".toList⟩ out none := by
  have hwrite : (writePage crossing (outputPath ⟨"out".toList⟩
      (Scan.document ⟨['.']⟩ ["a.sphst".toList]).relative) []).2 = none := by decide +kernel
  rw [one_empty (l := ["a.sphst".toList]) (by decide) (by decide), hwrite]
  exact ⟨_, rfl⟩

/-- It cannot be written after a directory has been made in its place. -/
theorem one_crossing_last : ∃ error, (one Compiler.usual ⟨"out".toList⟩
    (one Compiler.usual ⟨"out".toList⟩ crossing
      (Scan.document ⟨['.']⟩ ["a.html".toList, "b.sphst".toList])).value.1
    (Scan.document ⟨['.']⟩ ["a.sphst".toList])).value.2 = .failed ⟨"a.sphst".toList⟩ error := by
  have hwrite : (writePage (writePage crossing (outputPath ⟨"out".toList⟩
      (Scan.document ⟨['.']⟩ ["a.html".toList, "b.sphst".toList]).relative) []).1
      (outputPath ⟨"out".toList⟩ (Scan.document ⟨['.']⟩ ["a.sphst".toList]).relative) []).2 =
        some .isDirectory := by decide +kernel
  have hbefore : (one Compiler.usual ⟨"out".toList⟩ crossing
      (Scan.document ⟨['.']⟩ ["a.html".toList, "b.sphst".toList])).value.1 =
        (writePage crossing (outputPath ⟨"out".toList⟩
          (Scan.document ⟨['.']⟩ ["a.html".toList, "b.sphst".toList]).relative) []).1 := by
    rw [one_empty (l := ["a.html".toList, "b.sphst".toList]) (by decide) (by decide)]
  rw [hbefore, one_empty (l := ["a.sphst".toList]) (by decide +kernel) (by decide +kernel), hwrite]
  exact ⟨_, rfl⟩

/-- The page of one document stands where that of the other needs a directory, so that the report
tells which of them was built first. -/
theorem runIn_crossing : crossing.isDirectory ⟨['.']⟩ ∧
    (runIn id Compiler.usual crossing ⟨['.']⟩ ⟨"out".toList⟩ []).2 ≠
      (runIn List.reverse Compiler.usual crossing ⟨['.']⟩ ⟨"out".toList⟩ []).2 := by
  have hdir : crossing.isDirectory ⟨['.']⟩ := by decide
  have hhome : crossing.resolve ⟨['.']⟩ = .ok [] := by decide
  have hmake := makeDirectories_of_isDirectory
    (show crossing.isDirectory ⟨"out".toList⟩ by decide)
  obtain ⟨l, hl, -, hscan⟩ := @Scan.run_directory crossing _ "sphst".toList [] hdir
  obtain rfl : [] = l := Except.ok.inj (hhome.symm.trans hl)
  refine ⟨hdir, fun hsame => ?_⟩
  obtain ⟨out, hfirst⟩ := one_crossing_first
  obtain ⟨error, hlast⟩ := one_crossing_last
  have hne : Scan.document ⟨['.']⟩ ["a.sphst".toList] ≠
      Scan.document ⟨['.']⟩ ["a.html".toList, "b.sphst".toList] := by decide
  have hperm := perm_crossing.map (Scan.document ⟨['.']⟩)
  rw [List.map_cons, List.map_singleton] at hperm
  -- the events of the first document are compared, wherever it stands in the scan
  rcases List.perm_pair.1 hperm with hds | hds <;> rw [hds] at hscan
  · obtain ⟨hid, hreverse⟩ := runIn_two (c := Compiler.usual) hne hscan hmake
    rw [hid, hreverse, hfirst, hlast] at hsame
    have hevents := (BuildReport.mk.inj (Except.ok.inj hsame)).2
    cases (List.cons.inj hevents).1
  · obtain ⟨hid, hreverse⟩ := runIn_two (c := Compiler.usual) hne.symm hscan hmake
    rw [hid, hreverse, hfirst, hlast] at hsame
    have hevents := (BuildReport.mk.inj (Except.ok.inj hsame)).2
    cases (List.cons.inj (List.cons.inj hevents).2).1

end Folio.Build
