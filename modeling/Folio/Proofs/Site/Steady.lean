import Folio.Proofs.Import.Growth
import Folio.Proofs.Script.Confinement
import Folio.Proofs.Site.Discovery
import Folio.Proofs.Site.Merge

namespace Folio.Build

open Folio.Path Workspace

variable {c : Compiler} {w w₀ u : Workspace} {input output : Path} {b l : Location}
  {m extension : Text} {d : SourceDocument} {ds : List SourceDocument}

/-- The names that lead from the output directory to the page of a document. -/
def pageNames (d : SourceDocument) : List Text := (d.relative.withExtension pageExtension).segments

/-- The names of a page, for a document that is found. -/
theorem Found.exists_pageNames (h : Found w input extension ds) (hd : d ∈ ds) :
    ∃ init n stem, d.relative = ofNames (init ++ [n]) ∧ d = Scan.document input (init ++ [n]) ∧
      (∀ s ∈ init ++ [n], IsName s) ∧ splitExtension n = (stem, some extension) ∧
      pageNames d = init ++ [renamed stem pageExtension] := by
  obtain ⟨_, _, names, rfl, hbelow⟩ := h.below d hd
  obtain ⟨init, n, stem, rfl, hnames, hstem⟩ := hbelow.exists_name
  refine ⟨init, n, stem, rfl, rfl, hnames, hstem, ?_⟩
  change ((ofNames (init ++ [n])).withExtension pageExtension).segments = _
  rw [withExtension_document hnames hstem, segments_ofNames (by simp) (isSegment_page hnames hstem)]

theorem renamed_injective {stem stem' : Text} (hne : stem ≠ []) (hne' : stem' ≠ [])
    (h : renamed stem pageExtension = renamed stem' pageExtension) : stem = stem' := by
  unfold renamed at h
  split at h <;> split at h
  · rename_i hs hs'
    rw [hs, hs']
  · exact absurd h.symm (page_is_name hne').2
  · exact absurd h (page_is_name hne).2
  · exact (List.append_inj' h rfl).1

/-- No two documents have a page with the same names. -/
theorem Found.pageNames_injective (h : Found w input extension ds) {e : SourceDocument}
    (hd : d ∈ ds) (he : e ∈ ds) (heq : pageNames d = pageNames e) : d = e := by
  obtain ⟨init, n, stem, _, rfl, _, hsplit, hpage⟩ := h.exists_pageNames hd
  obtain ⟨init', n', stem', _, rfl, _, hsplit', hpage'⟩ := h.exists_pageNames he
  obtain ⟨rfl, hne, _⟩ := splitExtension_eq_iff.1 hsplit
  obtain ⟨rfl, hne', _⟩ := splitExtension_eq_iff.1 hsplit'
  rw [hpage, hpage'] at heq
  obtain ⟨rfl, hlast⟩ := List.append_inj' heq rfl
  rw [renamed_injective hne hne' (List.singleton_inj.1 hlast)]

section One

variable {v : Workspace} (hfound : Found v input extension ds) (hd : d ∈ ds)
  (hb : w₀.resolve output = .ok b) (hdir : w₀.tree.lookup b = some .directory)
include hfound hd hb hdir

/-- The page of a document is written below the output directory. -/
theorem paged_document {pages : Location → Prop} (hgrown : Grown pages w₀ w) (html : Text) :
    ∃ init m, pageNames d = init ++ [m] ∧
      Paged w b init m html (writePage w (outputPath output d.relative) html) := by
  obtain ⟨init, n, stem, hrelative, _, hnames, hsplit, hpage⟩ := hfound.exists_pageNames hd
  have hsegments := isSegment_page hnames hsplit
  have hdescends := descends_join hb hdir hsegments (nul_not_mem_page hnames hsplit) (by simp)
  rw [← withExtension_document hnames hsplit, ← hrelative] at hdescends
  refine ⟨init, _, hpage, paged_writePage (hdescends.grown hgrown) (fun s hs => ?_)
    (hsegments _ (by simp))⟩
  exact hnames s (List.mem_append_left _ hs)

theorem changes_one : Changes w₀ (one c output w₀ d).value.1 b (pageNames d) := by
  rw [one_eq]
  split
  · exact Changes.refl w₀ b _
  · split
    · exact Changes.refl w₀ b _
    · rename_i page _ _
      obtain ⟨init, m, hpage, hpaged⟩ :=
        paged_document hfound hd hb hdir (Grown.refl (fun _ => False) w₀) page.html
      rw [hpage]
      exact hpaged.changes

end One

/-- A page that is written changes nothing but below the output directory. -/
theorem Changes.agreeOutside {names : List Text} (h : Changes w₀ u b names)
    (hdir : w₀.tree.lookup b = some .directory) (hne : names ≠ []) : AgreeOutside b w₀ u := by
  intro l hl
  rcases h l with hsame | ⟨-, hnone, -, hway⟩ | ⟨-, rfl, -⟩
  · exact hsame
  · -- a directory that was missing lies below the one that is there
    exfalso
    rcases List.prefix_or_prefix_of_prefix hway (List.prefix_append b names.dropLast) with hlb | hbl
    · obtain ⟨rest, rfl⟩ := hlb
      rw [directory_of_append hdir] at hnone
      cases hnone
    · obtain ⟨rest, rfl⟩ := hbl
      by_cases hrest : rest = []
      · rw [hrest, List.append_nil, hdir] at hnone
        cases hnone
      · rw [List.dropLast_append_of_ne_nil hrest] at hl
        exact hl (List.prefix_append b rest.dropLast)
  · rw [List.dropLast_append_of_ne_nil hne] at hl
    exact absurd (List.prefix_append b names.dropLast) hl

/-- A run changes nothing but below the output directory. -/
theorem agreeOutside_all {v : Workspace} (hfound : Found v input extension ds)
    (hb : w₀.resolve output = .ok b) (hdir : w₀.tree.lookup b = some .directory) :
    AgreeOutside b w₀ (all c output w₀ ds).value.1 := by
  induction ds generalizing w₀ with
  | nil => exact fun _ _ => rfl
  | cons d ds ih =>
    rw [all_cons]
    have hone : AgreeOutside b w₀ (one c output w₀ d).value.1 :=
      (changes_one hfound List.mem_cons_self hb hdir).agreeOutside hdir (Text.splitOn_ne_nil '/' _)
    have hgrown : Grown (PageOf w₀ output [(one c output w₀ d).value.2]) w₀
        (one c output w₀ d).value.1 := (one_built c output w₀ d).grown
    have hrest : Found v input extension ds :=
      ⟨hfound.nodup.of_cons, fun e he => hfound.below e (List.mem_cons_of_mem d he)⟩
    exact hone.trans (ih hrest (hgrown.resolve hb) (hgrown.directory b hdir))

/-- No document compiles otherwise after others have been built. -/
def Steady (c : Compiler) (output : Path) (w₀ : Workspace) (ds : List SourceDocument) : Prop :=
  ∀ before d after, (before ++ d :: after).Perm ds →
    (c.compileFile (all c output w₀ before).value.1 d.path).value =
      (c.compileFile w₀ d.path).value

theorem eq_of_suffix {stem a b : Text} (ha : '.' ∉ a) (hb : '.' ∉ b)
    (h : '.' :: a <:+ stem ++ '.' :: b) : a = b := by
  obtain ⟨start, h⟩ := h
  rcases List.append_eq_append_iff.1 h with ⟨more, _, hmore⟩ | ⟨more, _, hmore⟩
  · cases more with
    | nil => exact (List.cons.inj hmore).2
    | cons c cs =>
      obtain ⟨-, rfl⟩ := List.cons.inj hmore
      exact absurd (by simp) ha
  · cases more with
    | nil => exact (List.cons.inj hmore).2.symm
    | cons c cs =>
      obtain ⟨-, rfl⟩ := List.cons.inj hmore
      exact absurd (by simp) hb

/-- No page that is written has the extension of documents. -/
theorem not_pageOf {v : Workspace} (hfound : Found v input extension ds) (hdot : '.' ∉ extension)
    (hextension : extension ≠ pageExtension) (init : Location) (hm : '.' :: extension <:+ m) :
    ¬ PageOf w output (all c output w ds).value.2 (init ++ [m]) := by
  intro hpage
  obtain ⟨_, page, _, heq⟩ := exists_stem hfound hpage
  obtain rfl := List.singleton_inj.1 (List.append_inj' heq rfl).2
  exact hextension (eq_of_suffix hdot (by decide) hm)

/-- The documents of a scan compile as before where imports go up before they go down and their pages
show the same. -/
theorem steady_of_pages (hextension : c.extension ≠ pageExtension) (hdir : w.isDirectory input)
    {skipped : List Text} {scan : Scan} (hscan : Scan.run w input c.extension skipped = .ok scan)
    (hall : Import.AllDirect c.registry c.extension w) (hmake : Grown (fun _ => False) w w₀)
    (hpage : ∀ before d after, (before ++ d :: after).Perm scan.documents →
      ∀ l, w₀.resolve d.path = .ok l → ∀ nodes resolved, c.Expands w₀ l nodes resolved →
        c.pageOf (all c output w₀ before).value.1 (pathOf l.dropLast) nodes resolved =
          c.pageOf w₀ (pathOf l.dropLast) nodes resolved) :
    Steady c output w₀ scan.documents := by
  obtain ⟨l, hl, hldir, hrun⟩ := @Scan.run_directory w input c.extension skipped hdir
  intro before d after hperm
  have hpage := hpage before d after hperm
  have hbefore : Found w input c.extension before := (found_run hdir hscan hperm).left
  obtain rfl := Except.ok.inj (hscan.symm.trans hrun)
  obtain ⟨names, hmem, rfl⟩ := List.mem_map.1 (hperm.mem_iff.1 (List.mem_append_right before
    List.mem_cons_self))
  have hbelow := Scan.mem_namesBelow_iff.1 hmem
  have hresolve := Scan.resolve_document hl hldir hbelow
  obtain ⟨content, hfile⟩ := hbelow.1.2.1
  obtain ⟨init, n, stem, rfl, hnames, hsplit⟩ := hbelow.exists_name
  obtain ⟨rfl, -, hdot⟩ := splitExtension_eq_iff.1 hsplit
  have hslash : '/' ∉ c.extension := fun hin => (hnames _ (by simp)).slash_not_mem
    (List.mem_append_right stem (List.mem_cons_of_mem '.' hin))
  have hnot : ¬ PageOf w₀ output (all c output w₀ before).value.2
      (l ++ init ++ [stem ++ '.' :: c.extension]) :=
    not_pageOf hbefore hdot hextension _ (List.suffix_append stem _)
  rw [List.append_assoc] at hnot
  -- making the output directory changes no file
  have hall₀ : Import.AllDirect c.registry c.extension w₀ := fun q source hq =>
    hall q source (readAt_eq_ok_iff.2 ((hmake.same q _ not_false).1 (readAt_eq_ok_iff.1 hq)))
  exact Compiler.compileFile_grown hslash (all_grown c output w₀ before)
    (fun _ _ => not_pageOf hbefore hdot hextension _) hall₀ (hmake.resolve hresolve)
    ((hmake.same _ content not_false).2 hfile) hnot (hpage _ (hmake.resolve hresolve))

/-- Where imports go up before they go down, and scripts do not look at files, no document compiles
otherwise after others have been built. -/
theorem steady_of_direct (hhost : c.host.Blind) (hextension : c.extension ≠ pageExtension)
    (hdir : w.isDirectory input) {skipped : List Text} {scan : Scan}
    (hscan : Scan.run w input c.extension skipped = .ok scan)
    (hall : Import.AllDirect c.registry c.extension w) :
    Steady c output (w.makeDirectories output).1 scan.documents :=
  steady_of_pages hextension hdir hscan hall (grown_makeDirectories w output fun _ => False)
    fun _ _ _ _ _ _ _ _ _ => Compiler.pageOf_blind hhost _ _ _

/-- The scripts on the page of the document at a location list no directory at another location or
below it. -/
def ListsApart (c : Compiler) (w : Workspace) (b l : Location) : Prop :=
  ∀ nodes resolved, c.Expands w l nodes resolved → ∀ n ∈ resolved, n.kind = Kind.script →
    ∀ a, Script.Lists (Text.lines (n.text?.getD [])) a →
      ¬ b <+: follow l.dropLast (Path.mk a).segments

/-- Whatever is imported on a page, its scripts are those of some documents. -/
theorem ListsApart.of_documents (h : ∀ k source, w.readAt k = .ok source →
      ∀ n ∈ (nodesOf c.registry source).value, n.kind = Kind.script →
        ∀ a, Script.Lists (Text.lines (n.text?.getD [])) a →
          ¬ b <+: follow l.dropLast (Path.mk a).segments) : ListsApart c w b l := by
  rintro nodes resolved ⟨source, hsource, rfl, hresolved⟩
  exact Import.forall_expand h (fun _ _ hn _ => hn)
    (fun _ _ _ _ _ hk => absurd hk (by decide : Kind.importKind ≠ Kind.script)) (h l source hsource)
    hresolved

/-- Where imports go up before they go down, and scripts list nothing in the output directory, no
document compiles otherwise after others have been built. -/
theorem steady_of_apart (hhost : c.host = Script.caller) (hextension : c.extension ≠ pageExtension)
    (hdir : w.isDirectory input) {skipped : List Text} {scan : Scan}
    (hscan : Scan.run w input c.extension skipped = .ok scan)
    (hall : Import.AllDirect c.registry c.extension w)
    (houtput : (w.makeDirectories output).1.isDirectory output)
    (hlists : ∀ d ∈ scan.documents, ∀ l, (w.makeDirectories output).1.resolve d.path = .ok l →
      ListsApart c (w.makeDirectories output).1 (w.lexical output) l) :
    Steady c output (w.makeDirectories output).1 scan.documents := by
  have hmake := grown_makeDirectories w output fun _ => False
  obtain ⟨b, hb, hbdir⟩ := isDirectory_iff.1 houtput
  obtain rfl : b = w.lexical output := (resolve_eq_lexical hb).trans (hmake.lexical output)
  refine steady_of_pages hextension hdir hscan hall hmake fun before d after hperm l hl nodes
    resolved hexpands => ?_
  have hfound : Found w input c.extension before := (found_run hdir hscan hperm).left
  -- whatever the documents before it have changed lies below the output directory
  have hagree : AgreeOutside (w.lexical output) (w.makeDirectories output).1
      (all c output (w.makeDirectories output).1 before).value.1 := agreeOutside_all hfound hb hbdir
  have hd : d ∈ scan.documents := hperm.mem_iff.1 (List.mem_append_right before List.mem_cons_self)
  obtain ⟨source, hsource, -⟩ := id hexpands
  have hbase := FileTree.lookup_dropLast (lookup_of_readAt hsource)
  refine Compiler.pageOf_congr (fun n hn hk f vars buffers => ?_) nodes
  have hlist (a : Text) (ha : Script.Lists (Text.lines (n.text?.getD [])) a) :=
    Script.View.list_apart
      (v := ⟨(w.makeDirectories output).1, pathOf l.dropLast, c.extension, f, vars⟩) rfl hbase hagree
      (hlists d hd l hl nodes resolved hexpands n hn hk a ha)
  rw [hhost]
  exact congrArg Logged.value (Script.run_congr hlist buffers)

end Folio.Build
