import Folio.Proofs.Site.Order

namespace Folio.Build

open Folio.Path Workspace

variable {c : Compiler} {w : Workspace} {input output : Path} {d : SourceDocument}

/-- A build ends with the workspace in which the output directory is made, or with what building the
documents one after another makes of that. -/
theorem runIn_cases (order : List SourceDocument → List SourceDocument) {skipped : List Text}
    {scan : Scan} (hscan : Scan.run w input c.extension skipped = .ok scan) :
    (runIn order c w input output skipped).1 = (w.makeDirectories output).1 ∨
      (runIn order c w input output skipped).1 =
        (all c output (w.makeDirectories output).1 (order scan.documents)).value.1 := by
  unfold runIn
  rw [hscan]
  obtain ⟨w₀, _ | fault⟩ := w.makeDirectories output
  · exact Or.inr rfl
  · exact Or.inl rfl

/-- The documents of a directory are what they were, however many of them have been built. -/
theorem all_keeps_document {ds : List SourceDocument} {extension : Text} {skipped : List Text}
    {l names : Location} (hfound : Found w input extension ds) (hextension : extension ≠ pageExtension)
    (hbelow : Scan.DocumentBelow w extension skipped l names) {w₀ : Workspace} {content : Content}
    (hfile : w₀.tree.lookup (l ++ names) = some (.file content)) :
    (all c output w₀ ds).value.1.tree.lookup (l ++ names) = some (.file content) := by
  obtain ⟨init, n, stem, rfl, -, hsplit⟩ := hbelow.exists_name
  obtain ⟨rfl, -, hdot⟩ := splitExtension_eq_iff.1 hsplit
  have hnot : ¬ PageOf w₀ output (all c output w₀ ds).value.2
      (l ++ init ++ [stem ++ '.' :: extension]) :=
    not_pageOf hfound hdot hextension _ (List.suffix_append stem _)
  rw [List.append_assoc] at hnot
  exact ((all_grown c output w₀ ds).same _ content hnot).2 hfile

/-- The page of a file stands where the file does only if the file has the extension of pages and
lies in the output directory. -/
theorem lexical_eq_of_page {init before : List Text} {n last : Text} (hn : IsName n)
    (hsegments : (outputPath output ⟨n⟩).segments = before ++ [last]) (hdots : last ≠ ['.', '.'])
    (heq : w.lexical (outputPath output ⟨n⟩) = init ++ [n]) :
    w.lexical output = init ∧ ∃ stem, splitExtension n = (stem, some pageExtension) := by
  have hnames : ∀ m ∈ [] ++ [n], IsName m := by simpa using hn
  obtain ⟨stem, old, hsplit⟩ : ∃ stem old, splitExtension n = (stem, old) := ⟨_, _, rfl⟩
  cases old with
  | some old =>
    have hpage := lexical_outputPath hnames hsplit w output (stem_ne_dot hnames hsplit hsegments hdots)
    rw [List.append_nil] at hpage
    obtain ⟨rfl, hlast⟩ := List.append_inj' (hpage.symm.trans heq) rfl
    refine ⟨rfl, stem, splitExtension_eq_iff.2 ⟨(List.singleton_inj.1 hlast).symm, ?_, by decide⟩⟩
    exact (splitExtension_eq_iff.1 hsplit).2.1
  | none =>
    -- the page has a longer name than the file
    obtain rfl := (stem_of_bare hsplit).symm
    have hsegment := isSegment_of_isName hn
    have hsingle : (Path.mk n).segments = [] ++ [n] := segments_single hsegment
    have hlonger : ∀ m ∈ [n ++ '.' :: pageExtension], IsSegment m := by
      refine List.forall_mem_singleton.2 ⟨(page_is_name hn.1).1, ?_⟩
      rw [List.mem_append, not_or]
      exact ⟨hsegment.2, by decide⟩
    have hpage : w.lexical (outputPath output ⟨n⟩) =
        w.lexical output ++ [n ++ '.' :: pageExtension] := by
      rw [outputPath, withExtension_of_bare hsingle hsegment.1 hn.ne_dots hsplit (by decide),
        List.nil_append, lexical_join (not_isAbsolute_ofNames hlonger),
        segments_ofNames (by simp) hlonger, follow_cons, step,
        if_neg (page_is_name hn.1).1, if_neg (page_is_name hn.1).2]
      rfl
    obtain ⟨-, hlast⟩ := List.append_inj' (hpage.symm.trans heq) rfl
    have hlength := congrArg List.length (List.singleton_inj.1 hlast)
    rw [List.length_append] at hlength
    exact absurd hlength (by simp [pageExtension])

/-- Building one document leaves a file as it was, unless the page of the document is written there. -/
theorem one_keeps_file {l : Location} {content : Content}
    (hfile : w.tree.lookup l = some (.file content)) :
    (one c output w d).value.1.tree.lookup l = some (.file content) ∨
      ∃ page before n, (c.compileFile w d.path).value = .ok page ∧ page.importable = false ∧
        (outputPath output d.relative).segments = before ++ [n] ∧ n ≠ ['.', '.'] ∧
        w.lexical (outputPath output d.relative) = l ∧
        (one c output w d).value.1.tree.lookup l = some (.file (.text page.html)) := by
  have hbuilt : Built c output w d ((one c output w d).value.1, (one c output w d).value.2) :=
    one_built c output w d
  generalize (one c output w d).value.1 = w', (one c output w d).value.2 = e at hbuilt ⊢
  cases hbuilt with
  | written hpage himportable hsegments hdots hgrown _ hlookup =>
    by_cases hl : w.lexical (outputPath output d.relative) = l
    · exact Or.inr ⟨_, _, _, hpage, himportable, hsegments, hdots, hl, hl ▸ hlookup⟩
    · exact Or.inl ((hgrown.same l content (Ne.symm hl)).2 hfile)
  | skipped _ _ => exact Or.inl hfile
  | failed _ hgrown => exact Or.inl ((hgrown.same l content not_false).2 hfile)

/-- A build in any order leaves each document of its scan as it was, also where it fails; but a file
that is built by itself, has the extension of pages and lies in the output directory is replaced by
its page. -/
theorem runIn_keeps_documents {s : Settings} (hs : s.problem? = none)
    (hc : c.extension = s.extension) {order : List SourceDocument → List SourceDocument}
    (horder : ∀ ds, (order ds).Perm ds) {skipped : List Text} {scan : Scan}
    (hscan : Scan.run w input c.extension skipped = .ok scan) (hd : d ∈ scan.documents) :
    ∃ l content, w.resolve d.path = .ok l ∧ w.tree.lookup l = some (.file content) ∧
      (runIn order c w input output skipped).1.resolve d.path = .ok l ∧
      ((runIn order c w input output skipped).1.tree.lookup l = some (.file content) ∨
        (d.path = input ∧ ¬ w.isDirectory input ∧ input.hasExtension pageExtension ∧
          w.lexical output = l.dropLast ∧ ∃ page,
            (c.compileFile (w.makeDirectories output).1 input).value = .ok page ∧
            page.importable = false ∧
            (runIn order c w input output skipped).1.tree.lookup l =
              some (.file (.text page.html)))) := by
  have hmade := grown_makeDirectories w output fun _ => False
  have hall := all_grown c output (w.makeDirectories output).1 (order scan.documents)
  have hmadeFile {l : Location} {content : Content} (h : w.tree.lookup l = some (.file content)) :=
    (hmade.same l content not_false).2 h
  have hresolve {p : Path} {l : Location} (hl : w.resolve p = .ok l) :
      (runIn order c w input output skipped).1.resolve p = .ok l := by
    rcases runIn_cases order hscan with hrun | hrun <;> rw [hrun]
    · exact hmade.resolve hl
    · exact hall.resolve (hmade.resolve hl)
  by_cases hdir : w.isDirectory input
  · -- documents of a directory have an extension that no page has
    obtain ⟨l, hl, hldir, hdocuments⟩ := @Scan.run_directory w input c.extension skipped hdir
    obtain rfl := Except.ok.inj (hscan.symm.trans hdocuments)
    obtain ⟨names, hnames, rfl⟩ := List.mem_map.1 hd
    have hbelow := Scan.mem_namesBelow_iff.1 hnames
    have hdocument := Scan.resolve_document hl hldir hbelow
    obtain ⟨content, hfile⟩ := hbelow.1.2.1
    refine ⟨_, content, hdocument, hfile, hresolve hdocument, Or.inl ?_⟩
    rcases runIn_cases order hscan with hrun | hrun <;> rw [hrun]
    · exact hmadeFile hfile
    · exact all_keeps_document (found_documents (horder _)) (hc ▸ extension_ne_of_valid hs) hbelow
        (hmadeFile hfile)
  · -- a single file is taken whatever its name
    obtain ⟨before, init, n, content, hl, hfile, hsegments, rfl⟩ := Scan.run_file hdir hscan
    obtain rfl := List.mem_singleton.1 hd
    refine ⟨_, content, hl, hfile, hresolve hl, ?_⟩
    rcases runIn_cases order hscan with hrun | hrun <;> rw [hrun]
    · exact Or.inl (hmadeFile hfile)
    · rw [List.perm_singleton.1 (horder [⟨input, ⟨n⟩⟩]), all_cons, all_nil]
      refine (one_keeps_file (hmadeFile hfile)).imp_right ?_
      rintro ⟨page, start, last, hpage, himportable, hpath, hdots, heq, hwritten⟩
      have hn : IsName n := FileTree.isName_of_lookup hfile n (by simp)
      obtain ⟨houtput, hsplit⟩ := lexical_eq_of_page hn hpath hdots heq
      rw [hmade.lexical] at houtput
      have hextension := (hasExtension_iff hsegments (not_isFiller hn) hn.ne_dots).2 hsplit
      exact ⟨rfl, hdir, hextension, by rw [houtput, List.dropLast_concat], page, hpage, himportable,
        hwritten⟩

/-- A document with the extension of pages. -/
def titled : Workspace where
  tree := {
    entries := [(["page.html".toList], .file (.text "title A".toList))]
    nodup := by decide
    named := by decide
    closed := by decide }
  home := []

theorem compileFile_titled : (Compiler.usual.compileFile titled ⟨"page.html".toList⟩).value =
    .ok ⟨"<h1>A</h1>".toList, some ['A'], false, []⟩ := by
  have hl : titled.resolve ⟨"page.html".toList⟩ = .ok ["page.html".toList] := by decide
  have hs : titled.readAt ["page.html".toList] = .ok "title A".toList := by decide
  have hnodes : (nodesOf Compiler.usual.registry "title A".toList).value =
      [.scalar "title".toList ['A']] := by decide +kernel
  have hkept : Import.role Compiler.usual.extension titled
      (pathOf ["page.html".toList].dropLast) (.scalar "title".toList ['A']) = .kept := by rfl
  rw [Compiler.compileFile_readable hl hs, hnodes,
    Import.expand_cons_of_ok (Import.piece_kept hkept), Import.expand_nil]
  decide +kernel

theorem scan_titled : Scan.run titled ⟨"page.html".toList⟩ "sphst".toList [] =
    .ok ⟨⟨['.']⟩, [⟨⟨"page.html".toList⟩, ⟨"page.html".toList⟩⟩]⟩ := by rfl

theorem runIn_keeps_documents_titled : Settings.standard.problem? = none ∧
    Scan.run titled ⟨"page.html".toList⟩ "sphst".toList [] =
      .ok ⟨⟨['.']⟩, [⟨⟨"page.html".toList⟩, ⟨"page.html".toList⟩⟩]⟩ ∧
    (runIn id Compiler.usual titled ⟨"page.html".toList⟩ ⟨"out".toList⟩ []).1.tree.lookup
      ["page.html".toList] = some (.file (.text "title A".toList)) := by
  have hs : Settings.standard.problem? = none := by decide
  have hid (ds : List SourceDocument) : (id ds).Perm ds := .refl ds
  have hresolve : titled.resolve ⟨"page.html".toList⟩ = .ok ["page.html".toList] := by decide
  have hlookup : titled.tree.lookup ["page.html".toList] = some (.file (.text "title A".toList)) := by
    decide
  have hapart : titled.lexical ⟨"out".toList⟩ ≠ ["page.html".toList].dropLast := by decide
  obtain ⟨l, content, hl, hfile, -, hafter⟩ := @runIn_keeps_documents Compiler.usual titled _
    ⟨"out".toList⟩ _ _ hs rfl id hid [] _ scan_titled List.mem_cons_self
  obtain rfl : ["page.html".toList] = l := Except.ok.inj (hresolve.symm.trans hl)
  obtain rfl : .text "title A".toList = content :=
    Entry.file.inj (Option.some.inj (hlookup.symm.trans hfile))
  exact ⟨hs, scan_titled, hafter.resolve_right fun hreplaced => hapart hreplaced.2.2.2.1⟩

/-- Built into its own directory, such a document is gone, and its page is in its place. -/
theorem run_replaces_document : Settings.standard.problem? = none ∧
    Scan.run titled ⟨"page.html".toList⟩ "sphst".toList [] =
      .ok ⟨⟨['.']⟩, [⟨⟨"page.html".toList⟩, ⟨"page.html".toList⟩⟩]⟩ ∧
    titled.read ⟨"page.html".toList⟩ = .ok "title A".toList ∧
    (run Compiler.usual titled ⟨"page.html".toList⟩ ⟨['.']⟩ []).value.1.read ⟨"page.html".toList⟩ =
      .ok "<h1>A</h1>".toList := by
  have hmake := makeDirectories_of_isDirectory (show titled.isDirectory ⟨['.']⟩ by decide)
  have hscan : Scan.run titled ⟨"page.html".toList⟩ Compiler.usual.extension [] = _ := scan_titled
  refine ⟨by decide, scan_titled, by decide, ?_⟩
  rw [← runIn_id, runIn, hscan, hmake]
  dsimp only [id]
  rw [all_cons, all_nil, one_eq, compileFile_titled]
  decide +kernel

end Folio.Build
