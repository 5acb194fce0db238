import Folio.Proofs.Document.Compilation
import Folio.Proofs.Files.Directories
import Folio.Proofs.Site.Pages
import Folio.Proofs.Site.Settings

/-! What a build leaves, in whatever order it takes the documents of its scan. Building one document
makes directories at the most, or writes its page; so a run of them changes no file but the pages
that it reports as written, and no page takes the place of another. -/
namespace Folio

def BuildEvent.source : BuildEvent → Path
  | .written source _ _ => source
  | .skipped source => source
  | .failed source _ => source

namespace Build

open Folio.Path Workspace

variable {c : Compiler} {output : Path} {w w' : Workspace} {d : SourceDocument}

/-- The directory of a file is made, and those above it. -/
def directoriesFor (w : Workspace) (path : Path) : Workspace × Option FileFault :=
  match path.parent? with
  | some parent => w.makeDirectories parent
  | none => (w, none)

/-- Writing a page makes directories for it and then writes it, or makes no more than directories. -/
theorem writePage_cases (w : Workspace) (path : Path) (html : Text) :
    (∃ fault, (writePage w path html).2 = some fault ∧
      Grown (fun _ => False) w (writePage w path html).1) ∨
    ∃ w₁, Grown (fun _ => False) w w₁ ∧ w₁.write path (.text html) = .ok (writePage w path html).1 ∧
      (writePage w path html).2 = none := by
  have hmade : Grown (fun _ => False) w (directoriesFor w path).1 := by
    unfold directoriesFor
    cases path.parent? with
    | some parent => exact grown_makeDirectories w parent _
    | none => exact Grown.refl _ w
  unfold writePage
  dsimp only
  split
  · rename_i fault _
    exact Or.inl ⟨fault, rfl, hmade⟩
  · split
    · rename_i w₂ hwrite
      exact Or.inr ⟨_, hmade, hwrite, rfl⟩
    · rename_i fault _
      exact Or.inl ⟨fault, rfl, hmade⟩

theorem one_eq (c : Compiler) (output : Path) (w : Workspace) (d : SourceDocument) :
    (one c output w d).value = match (c.compileFile w d.path).value with
      | .error fault => (w, .failed d.relative fault.message)
      | .ok page =>
        if page.importable then (w, .skipped d.relative)
        else
          let written := writePage w (outputPath output d.relative) page.html
          (written.1, match written.2 with
            | some fault => .failed d.relative ("failed to write ".toList ++
                (outputPath output d.relative).text ++ ": ".toList ++ fault.message)
            | none => .written d.relative (d.relative.withExtension pageExtension) page.title) := by
  unfold one Logged.bind
  dsimp only
  cases (c.compileFile w d.path).value with
  | error fault => rfl
  | ok page =>
    dsimp only
    split
    · rfl
    · generalize writePage w (outputPath output d.relative) page.html = written
      obtain ⟨w₁, _ | fault⟩ := written <;> rfl

/-- What building one document does: its page is written, or no file changes. -/
inductive Built (c : Compiler) (output : Path) (w : Workspace) (d : SourceDocument) :
    Workspace × BuildEvent → Prop
  | written {page : Page} {w' : Workspace} {before : List Text} {n : Text} :
      (c.compileFile w d.path).value = .ok page → page.importable = false →
      (outputPath output d.relative).segments = before ++ [n] → n ≠ ['.', '.'] →
      Grown (· = w.lexical (outputPath output d.relative)) w w' →
      w'.resolve (outputPath output d.relative) = .ok (w.lexical (outputPath output d.relative)) →
      w'.tree.lookup (w.lexical (outputPath output d.relative)) = some (.file (.text page.html)) →
      Built c output w d
        (w', .written d.relative (d.relative.withExtension pageExtension) page.title)
  | skipped {page : Page} : (c.compileFile w d.path).value = .ok page → page.importable = true →
      Built c output w d (w, .skipped d.relative)
  | failed {w' : Workspace} (error : Text) : Grown (fun _ => False) w w' →
      Built c output w d (w', .failed d.relative error)

theorem one_built (c : Compiler) (output : Path) (w : Workspace) (d : SourceDocument) :
    Built c output w d (one c output w d).value := by
  rw [one_eq]
  cases hpage : (c.compileFile w d.path).value with
  | error fault => exact .failed _ (Grown.refl _ w)
  | ok page =>
    dsimp only
    cases himportable : page.importable with
    | true => exact .skipped hpage himportable
    | false =>
      rw [if_neg (by simp)]
      rcases writePage_cases w (outputPath output d.relative) page.html with
        ⟨fault, hfault, hgrown⟩ | ⟨w₁, hgrown, hwrite, hnone⟩
      · rw [hfault]
        exact .failed _ hgrown
      · rw [hnone]
        obtain ⟨before, n, hsegments, _, hdots, hchanged, hresolve, hlookup⟩ := write_eq_ok hwrite
        rw [hgrown.lexical] at hchanged hresolve hlookup
        exact .written hpage himportable hsegments hdots
          ((hgrown.mono fun _ h => h.elim).trans hchanged) hresolve hlookup

/-- Where the pages stand that events report as written. -/
def PageOf (w : Workspace) (output : Path) (events : List BuildEvent) (l : Location) : Prop :=
  ∃ source out title, BuildEvent.written source out title ∈ events ∧ l = w.lexical (output.join out)

theorem all_nil : (all c output w []).value = (w, []) := rfl

theorem all_cons (ds : List SourceDocument) :
    (all c output w (d :: ds)).value =
      ((all c output (one c output w d).value.1 ds).value.1,
        (one c output w d).value.2 :: (all c output (one c output w d).value.1 ds).value.2) := rfl

theorem all_append (ds es : List SourceDocument) :
    (all c output w (ds ++ es)).value =
      ((all c output (all c output w ds).value.1 es).value.1,
        (all c output w ds).value.2 ++ (all c output (all c output w ds).value.1 es).value.2) := by
  induction ds generalizing w with
  | nil => rfl
  | cons d ds ih =>
    rw [List.cons_append, all_cons, ih, all_cons]
    rfl

theorem Built.grown {e : BuildEvent} (h : Built c output w d (w', e)) :
    Grown (PageOf w output [e]) w w' := by
  cases h with
  | written _ _ _ _ hgrown _ _ =>
    refine hgrown.mono ?_
    rintro l rfl
    exact ⟨_, _, _, List.mem_singleton.2 rfl, rfl⟩
  | skipped _ _ => exact Grown.refl _ w
  | failed _ hgrown => exact hgrown.mono fun _ h => h.elim

/-- A run changes no file but the pages that it writes. -/
theorem all_grown (c : Compiler) (output : Path) (w : Workspace) (ds : List SourceDocument) :
    Grown (PageOf w output (all c output w ds).value.2) w (all c output w ds).value.1 := by
  induction ds generalizing w with
  | nil => exact Grown.refl _ w
  | cons d ds ih =>
    rw [all_cons]
    have hone : Grown (PageOf w output [(one c output w d).value.2]) w (one c output w d).value.1 :=
      (one_built c output w d).grown
    refine (hone.mono ?_).trans ((ih _).mono ?_)
    · rintro l ⟨source, out, title, hmem, rfl⟩
      exact ⟨source, out, title, List.mem_cons.2 (Or.inl (List.mem_singleton.1 hmem)), rfl⟩
    · rintro l ⟨source, out, title, hmem, rfl⟩
      exact ⟨source, out, title, List.mem_cons_of_mem _ hmem, hone.lexical _⟩

theorem Built.of_written {source out : Path} {title : Option Text}
    (h : Built c output w d (w', .written source out title)) :
    out = d.relative.withExtension pageExtension ∧
      ∃ before n, (outputPath output d.relative).segments = before ++ [n] ∧ n ≠ ['.', '.'] := by
  cases h with
  | written _ _ hsegments hdots _ _ _ => exact ⟨rfl, _, _, hsegments, hdots⟩

theorem Built.source {e : BuildEvent} (h : Built c output w d (w', e)) : e.source = d.relative := by
  cases h <;> rfl

/-- A page that is written is that of a document of the run, and ends with a name. -/
theorem exists_of_written {ds : List SourceDocument} {source out : Path} {title : Option Text}
    (h : BuildEvent.written source out title ∈ (all c output w ds).value.2) :
    ∃ d ∈ ds, out = d.relative.withExtension pageExtension ∧
      ∃ before n, (outputPath output d.relative).segments = before ++ [n] ∧ n ≠ ['.', '.'] := by
  induction ds generalizing w with
  | nil => cases h
  | cons d ds ih =>
    rw [all_cons, List.mem_cons] at h
    rcases h with h | h
    · have hbuilt : Built c output w d
          ((one c output w d).value.1, (one c output w d).value.2) := one_built c output w d
      rw [← h] at hbuilt
      exact ⟨d, List.mem_cons_self, hbuilt.of_written⟩
    · obtain ⟨d', hd', hrest⟩ := ih h
      exact ⟨d', List.mem_cons_of_mem d hd', hrest⟩

theorem length_all (ds : List SourceDocument) : (all c output w ds).value.2.length = ds.length := by
  induction ds generalizing w with
  | nil => rfl
  | cons d ds ih => rw [all_cons, List.length_cons, List.length_cons, ih]

/-- An event of a run is that of one of its documents, at the moment when it is built. -/
theorem exists_of_mem {ds : List SourceDocument} {e : BuildEvent}
    (h : e ∈ (all c output w ds).value.2) :
    ∃ before d after, ds = before ++ d :: after ∧
      e = (one c output (all c output w before).value.1 d).value.2 := by
  induction ds generalizing w with
  | nil => cases h
  | cons d ds ih =>
    rw [all_cons, List.mem_cons] at h
    rcases h with rfl | h
    · exact ⟨[], d, ds, rfl, rfl⟩
    · obtain ⟨before, d', after, rfl, he⟩ := ih h
      exact ⟨d :: before, d', after, rfl, he⟩

/-- Documents that are found below a directory, each once. -/
structure Found (w : Workspace) (input : Path) (extension : Text) (ds : List SourceDocument) :
    Prop where
  nodup : ds.Nodup
  below : ∀ d ∈ ds, ∃ skipped l names, d = Scan.document input names ∧
    Scan.DocumentBelow w extension skipped l names

theorem Found.left {input : Path} {extension : Text} {ds es : List SourceDocument}
    (h : Found w input extension (ds ++ es)) : Found w input extension ds :=
  ⟨(List.nodup_append.1 h.nodup).1, fun d hd => h.below d (List.mem_append_left es hd)⟩

/-- A page that is written stays as it is until the end of the run. -/
theorem read_page {v : Workspace} {input : Path} {extension : Text} {before after : List SourceDocument}
    (hfound : Found v input extension (before ++ d :: after)) {source out : Path}
    {title : Option Text}
    (h : (one c output (all c output w before).value.1 d).value.2 = .written source out title) :
    ∃ page l, (c.compileFile (all c output w before).value.1 d.path).value = .ok page ∧
      page.importable = false ∧ out = d.relative.withExtension pageExtension ∧ title = page.title ∧
      (all c output w (before ++ d :: after)).value.1.resolve (output.join out) = .ok l ∧
      (all c output w (before ++ d :: after)).value.1.tree.lookup l =
        some (.file (.text page.html)) := by
  rw [all_append, all_cons]
  dsimp only
  generalize hw : (all c output w before).value.1 = w at h ⊢
  have hbuilt : Built c output w d ((one c output w d).value.1, (one c output w d).value.2) :=
    one_built c output w d
  rw [h] at hbuilt
  generalize (one c output w d).value.1 = w₁ at hbuilt ⊢
  cases hbuilt with
  | @written page _ start n hpage himportable hsegments hdots hgrown hresolve hlookup =>
    have hafter := all_grown c output w₁ after
    refine ⟨page, _, hpage, himportable, rfl, rfl, hafter.resolve hresolve, ?_⟩
    refine (hafter.same _ _ ?_).2 hlookup
    -- a page of a later document at the same place would be that of the same document
    rintro ⟨source, out, title, hmem, heq⟩
    obtain ⟨d', hd', rfl, start', n', hsegments', hdots'⟩ := exists_of_written hmem
    rw [hgrown.lexical] at heq
    obtain ⟨_, _, names, rfl, hbelow⟩ := hfound.below d (by simp)
    obtain ⟨_, _, names', rfl, hbelow'⟩ := hfound.below d' (by simp [hd'])
    obtain ⟨init, m, stem, rfl, hnames, hstem⟩ := hbelow.exists_name
    obtain ⟨init', m', stem', rfl, hnames', hstem'⟩ := hbelow'.exists_name
    have hsame : init ++ [m] = init' ++ [m'] :=
      page_injective hnames hnames' hstem hstem' (stem_ne_dot hnames hstem hsegments hdots)
        (stem_ne_dot hnames' hstem' hsegments' hdots') heq
    rw [← hsame] at hd'
    have hnodup := (List.nodup_append.1 hfound.nodup).2.1
    exact (List.nodup_cons.1 hnodup).1 hd'

/-- The pages of a run have the extension of pages. -/
theorem exists_stem {v : Workspace} {input : Path} {extension : Text} {ds : List SourceDocument}
    (hfound : Found v input extension ds) {l : Location}
    (h : PageOf w output (all c output w ds).value.2 l) :
    ∃ l₀ stem, stem ≠ [] ∧ l = l₀ ++ [stem ++ '.' :: pageExtension] := by
  obtain ⟨source, out, title, hmem, rfl⟩ := h
  obtain ⟨d, hd, rfl, start, n, hsegments, hdots⟩ := exists_of_written hmem
  obtain ⟨_, _, names, rfl, hbelow⟩ := hfound.below d hd
  obtain ⟨init, m, stem, rfl, hnames, hstem⟩ := hbelow.exists_name
  exact ⟨_, stem, (splitExtension_eq_iff.1 hstem).2.1,
    lexical_outputPath hnames hstem w output (stem_ne_dot hnames hstem hsegments hdots)⟩

/-- A build that takes the documents of its scan in an order of its own. The events of its report
stand in the order of the scan. -/
def runIn (order : List SourceDocument → List SourceDocument) (c : Compiler) (w : Workspace)
    (input output : Path) (skipped : List Text) : Workspace × Except BuildFault BuildReport :=
  match Scan.run w input c.extension skipped with
  | .error fault => (w, .error (.scan fault))
  | .ok scan => match w.makeDirectories output with
    | (w, some fault) => (w, .error (.files fault))
    | (w, none) =>
      let taken := order scan.documents
      let done := (all c output w taken).value
      (done.1, .ok ⟨output, scan.documents.filterMap fun d => (taken.zip done.2).lookup d⟩)

theorem filterMap_lookup_zip {ds : List SourceDocument} {es : List BuildEvent} (h : ds.Nodup)
    (hlength : ds.length = es.length) : ds.filterMap (fun d => (ds.zip es).lookup d) = es := by
  induction ds generalizing es with
  | nil => exact (List.eq_nil_of_length_eq_zero hlength.symm).symm
  | cons d ds ih =>
    obtain ⟨e, es, rfl⟩ : ∃ e rest, es = e :: rest :=
      List.exists_cons_of_ne_nil (by rintro rfl; cases hlength)
    obtain ⟨hd, hnodup⟩ := List.nodup_cons.1 h
    have hrest : ds.filterMap (fun x => ((d :: ds).zip (e :: es)).lookup x) =
        ds.filterMap fun x => (ds.zip es).lookup x := by
      refine List.filterMap_congr fun x hx => ?_
      have hne : (x == d) = false := beq_false_of_ne fun hxd => hd (hxd ▸ hx)
      rw [List.zip_cons_cons, List.lookup_cons, hne]
    rw [List.filterMap_cons_some (b := e) (by rw [List.zip_cons_cons, List.lookup_cons_self]), hrest,
      ih hnodup (Nat.succ.inj hlength)]

/-- Taking the documents in the order of the scan is how a build runs. -/
theorem runIn_id (c : Compiler) (w : Workspace) (input output : Path) (skipped : List Text) :
    runIn id c w input output skipped = (run c w input output skipped).value := by
  unfold runIn run
  cases hrun : Scan.run w input c.extension skipped with
  | error fault => rfl
  | ok scan =>
    dsimp only
    generalize w.makeDirectories output = made
    obtain ⟨w₀, _ | fault⟩ := made
    · have hevents : scan.documents.filterMap (fun d =>
          (scan.documents.zip (all c output w₀ scan.documents).value.2).lookup d) =
          (all c output w₀ scan.documents).value.2 :=
        filterMap_lookup_zip (Scan.nodup_run hrun) (length_all _).symm
      exact Prod.ext rfl (congrArg (fun es => Except.ok (BuildReport.mk output es)) hevents)
    · rfl

/-- What an event says about a document that was built in a workspace, and what is there of it at
the end. -/
structure Told (c : Compiler) (output : Path) (w w' : Workspace) (d : SourceDocument)
    (e : BuildEvent) : Prop where
  event : e = (one c output w d).value.2
  source : e.source = d.relative
  written : ∀ source out title, e = .written source out title → ∃ page,
    (c.compileFile w d.path).value = .ok page ∧ page.importable = false ∧
      out = d.relative.withExtension pageExtension ∧ title = page.title ∧
      w'.read (output.join out) = .ok page.html

theorem lookup_zip {ds es : List SourceDocument} {xs ys : List BuildEvent} {e : BuildEvent}
    (hd : d ∉ ds) (hlength : ds.length = xs.length) :
    ((ds ++ d :: es).zip (xs ++ e :: ys)).lookup d = some e := by
  induction ds generalizing xs with
  | nil =>
    obtain rfl : xs = [] := List.eq_nil_of_length_eq_zero hlength.symm
    exact List.lookup_cons_self
  | cons x ds ih =>
    obtain ⟨y, xs, rfl⟩ : ∃ y ys, xs = y :: ys :=
      List.exists_cons_of_ne_nil (by rintro rfl; cases hlength)
    rw [List.mem_cons, not_or] at hd
    have hne : (d == x) = false := beq_false_of_ne hd.1
    rw [List.cons_append, List.cons_append, List.zip_cons_cons, List.lookup_cons, hne]
    exact ih hd.2 (Nat.succ.inj hlength)

/-- The event that a run has for one of its documents. -/
theorem lookup_all {before after : List SourceDocument} (hnodup : (before ++ d :: after).Nodup) :
    ((before ++ d :: after).zip (all c output w (before ++ d :: after)).value.2).lookup d =
      some (one c output (all c output w before).value.1 d).value.2 := by
  have hd : d ∉ before := fun hd =>
    List.disjoint_of_nodup_append hnodup hd List.mem_cons_self
  rw [all_append, all_cons]
  exact lookup_zip hd (length_all before).symm

theorem read_of_lookup {p : Path} {l : Location} {t : Text} (hp : w.resolve p = .ok l)
    (hl : w.tree.lookup l = some (.file (.text t))) : w.read p = .ok t := by
  rw [Workspace.read, hp]
  dsimp only
  rw [readAt, hl]

/-- What a run tells of one of its documents. -/
theorem told_all {v : Workspace} {input : Path} {extension : Text}
    {before after : List SourceDocument} (hfound : Found v input extension (before ++ d :: after)) :
    Told c output (all c output w before).value.1 (all c output w (before ++ d :: after)).value.1 d
      (one c output (all c output w before).value.1 d).value.2 := by
  have hbuilt := one_built c output (all c output w before).value.1 d
  refine ⟨rfl, hbuilt.source, fun source out title he => ?_⟩
  obtain ⟨page, m, hpage, himportable, hout, htitle, hresolve, hfile⟩ := read_page hfound he
  exact ⟨page, hpage, himportable, hout, htitle, read_of_lookup hresolve hfile⟩

/-- What a run reports as written is there. -/
theorem resolve_page {v : Workspace} {input : Path} {extension : Text} {ds : List SourceDocument}
    (hfound : Found v input extension ds) {source out : Path} {title : Option Text}
    (h : BuildEvent.written source out title ∈ (all c output w ds).value.2) :
    (all c output w ds).value.1.resolve (output.join out) = .ok (w.lexical (output.join out)) := by
  obtain ⟨before, d, after, rfl, he⟩ := exists_of_mem h
  obtain ⟨_, m, _, _, _, _, hresolve, _⟩ := read_page hfound he.symm
  have hm : m = w.lexical (output.join out) :=
    (resolve_eq_lexical hresolve).trans ((all_grown c output w _).lexical _)
  rw [hresolve, hm]

theorem found_documents {w : Workspace} {input : Path} {extension : Text} {skipped : List Text}
    {l : Location} {ds : List SourceDocument}
    (h : ds.Perm ((Scan.namesBelow w extension skipped l).map (Scan.document input))) :
    Found w input extension ds := by
  refine ⟨h.nodup_iff.2 Scan.nodup_documents, fun d hd => ?_⟩
  obtain ⟨names, hnames, rfl⟩ := List.mem_map.1 (h.mem_iff.1 hd)
  exact ⟨skipped, l, names, rfl, Scan.mem_namesBelow_iff.1 hnames⟩

theorem found_run {w : Workspace} {input : Path} {extension : Text} {skipped : List Text} {scan : Scan}
    {ds : List SourceDocument} (hdir : w.isDirectory input)
    (hscan : Scan.run w input extension skipped = .ok scan) (h : ds.Perm scan.documents) :
    Found w input extension ds := by
  obtain ⟨_, -, -, hrun⟩ := @Scan.run_directory w input extension skipped hdir
  obtain rfl := Except.ok.inj (hscan.symm.trans hrun)
  exact found_documents h

theorem extension_ne_of_valid {s : Settings} (hs : s.problem? = none) :
    s.extension ≠ pageExtension := by
  intro h
  refine (Settings.problem?_eq_none_iff.1 hs).free "html" (by simp) ?_
  rw [h]
  decide

/-- A build tells what it has done, and does nothing else, whatever order it takes the documents in:
each event is about its document, what is reported as written is there, all other files are as they
were, and the same documents are found again. -/
theorem runIn_truthful {s : Settings} (hs : s.problem? = none) (hc : c.extension = s.extension)
    {input : Path} (hdir : w.isDirectory input)
    {order : List SourceDocument → List SourceDocument} (horder : ∀ ds, (order ds).Perm ds)
    {skipped : List Text} {report : BuildReport}
    (h : runIn order c w input output skipped = (w', .ok report)) :
    ∃ scan w₀ event, Scan.run w input c.extension skipped = .ok scan ∧
      w.makeDirectories output = (w₀, none) ∧ report.events = scan.documents.map event ∧
      (∀ before d after, order scan.documents = before ++ d :: after →
        Told c output (all c output w₀ before).value.1 w' d (event d)) ∧
      (∀ l, (∀ source out title, .written source out title ∈ report.events →
          w'.resolve (output.join out) ≠ .ok l) →
        ∀ content, w'.tree.lookup l = some (.file content) ↔
          w.tree.lookup l = some (.file content)) ∧
      (∀ l, w.tree.lookup l = some .directory → w'.tree.lookup l = some .directory) ∧
      Scan.run w' input c.extension skipped = .ok scan := by
  obtain ⟨l, hl, _, hrun⟩ := @Scan.run_directory w input c.extension skipped hdir
  unfold runIn at h
  rw [hrun] at h
  dsimp only at h
  have hmade := grown_makeDirectories w output fun _ => False
  generalize hmake : w.makeDirectories output = made at h hmade
  obtain ⟨w₀, fault⟩ := made
  cases fault with
  | some fault => cases (Prod.mk.inj h).2
  | none =>
    generalize hds : (Scan.namesBelow w c.extension skipped l).map (Scan.document input) = ds at h hrun
    have hperm := horder ds
    have hfound : Found w input c.extension (order ds) := found_documents (hperm.trans (.of_eq hds.symm))
    generalize htaken : order ds = taken at h hperm hfound
    dsimp only at h hmade
    obtain ⟨rfl, hreport⟩ := Prod.mk.inj h
    obtain rfl := Except.ok.inj hreport
    have hgrown : Grown (PageOf w₀ output (all c output w₀ taken).value.2) w
        (all c output w₀ taken).value.1 :=
      (hmade.mono fun _ h => h.elim).trans (all_grown c output w₀ taken)
    -- the event of a document is found in the run, wherever the order has put it
    have hlookup (d : SourceDocument) (hd : d ∈ ds) : ∃ e,
        (taken.zip (all c output w₀ taken).value.2).lookup d = some e := by
      obtain ⟨before, after, rfl⟩ := List.append_of_mem (hperm.mem_iff.2 hd)
      exact ⟨_, lookup_all hfound.nodup⟩
    refine ⟨⟨input, ds⟩, w₀, fun d => ((taken.zip (all c output w₀ taken).value.2).lookup d).getD
      (.skipped d.relative), hrun, rfl, ?_, ?_, ?_, hgrown.directory, ?_⟩
    · rw [← List.filterMap_eq_map]
      refine List.filterMap_congr fun d hd => ?_
      obtain ⟨e, he⟩ := hlookup d hd
      rw [he]
      simp [he]
    · intro before d after hsplit
      obtain rfl : taken = before ++ d :: after := htaken.symm.trans hsplit
      dsimp only
      rw [lookup_all hfound.nodup, Option.getD_some]
      exact told_all hfound
    · -- a file that has changed would be a page of the run
      intro m hm content
      refine hgrown.same m content ?_
      rintro ⟨source, out, title, hmem, rfl⟩
      refine hm source out title (List.mem_filterMap.2 ?_) (resolve_page hfound hmem)
      obtain ⟨before, d, after, rfl, he⟩ := exists_of_mem hmem
      exact ⟨d, hperm.mem_iff.1 (by simp), by rw [lookup_all hfound.nodup, he]⟩
    · rw [Scan.run_grown hgrown hdir fun m names hnames hpage => ?_, hrun]
      obtain ⟨_, stem, hstem, hsplit⟩ := exists_stem hfound hpage
      exact page_not_document (hc ▸ extension_ne_of_valid hs) hnames hstem hsplit

/-- A site that has been built before. -/
def notes : Workspace where
  tree := {
    entries := [(["a.sphst".toList], .file (.text "title Notes".toList)),
      (["b.sphst".toList], .file (.text "importable".toList)), (["out".toList], .directory)]
    nodup := by decide
    named := by decide
    closed := by decide }
  home := []

/-- The directives of the library, and scripts. -/
def scripted : Compiler := ⟨Registry.builtin, Script.caller, .standard, "sphst".toList⟩

theorem compileFile_notes :
    (scripted.compileFile notes (Scan.document ⟨['.']⟩ ["a.sphst".toList]).path).value =
      .ok ⟨"<h1>Notes</h1>".toList, some "Notes".toList, false, []⟩ := by
  have hl : notes.resolve (Scan.document ⟨['.']⟩ ["a.sphst".toList]).path =
      .ok ["a.sphst".toList] := by decide
  have hs : notes.readAt ["a.sphst".toList] = .ok "title Notes".toList := by decide
  have hnodes : (nodesOf scripted.registry "title Notes".toList).value =
      [.scalar Kind.title "Notes".toList] := by decide +kernel
  have hkept : Import.role scripted.extension notes (pathOf ["a.sphst".toList].dropLast)
      (.scalar Kind.title "Notes".toList) = .kept := by rfl
  rw [Compiler.compileFile_readable hl hs, hnodes,
    Import.expand_cons_of_ok (Import.piece_kept hkept), Import.expand_nil]
  decide +kernel

theorem one_notes :
    (one scripted ⟨"out".toList⟩ notes (Scan.document ⟨['.']⟩ ["a.sphst".toList])).value.2 =
      .written ⟨"a.sphst".toList⟩ ⟨"a.html".toList⟩ (some "Notes".toList) := by
  rw [one_eq, compileFile_notes]
  decide +kernel

/-- The document that is meant for import changes nothing. -/
theorem one_notes_importable :
    (one scripted ⟨"out".toList⟩ notes (Scan.document ⟨['.']⟩ ["b.sphst".toList])).value.1 = notes := by
  have hl : notes.resolve (Scan.document ⟨['.']⟩ ["b.sphst".toList]).path =
      .ok ["b.sphst".toList] := by decide
  have hs : notes.readAt ["b.sphst".toList] = .ok "importable".toList := by decide
  have hnodes : (nodesOf scripted.registry "importable".toList).value =
      [.scalar Kind.importable "true".toList] := by decide +kernel
  have hdropped : Import.role scripted.extension notes (pathOf ["b.sphst".toList].dropLast)
      (.scalar Kind.importable "true".toList) = .dropped [] := by rfl
  rw [one_eq, Compiler.compileFile_readable hl hs, hnodes,
    Import.expand_cons_of_ok (Import.piece_dropped hdropped), Import.expand_nil]
  rfl

theorem mem_documents_notes {l : Location} {d : SourceDocument} (hl : notes.resolve ⟨['.']⟩ = .ok l)
    (hd : d ∈ (Scan.namesBelow notes "sphst".toList [] l).map (Scan.document ⟨['.']⟩)) :
    d = Scan.document ⟨['.']⟩ ["a.sphst".toList] ∨ d = Scan.document ⟨['.']⟩ ["b.sphst".toList] := by
  obtain rfl : [] = l := Except.ok.inj ((show notes.resolve ⟨['.']⟩ = .ok [] by decide).symm.trans hl)
  obtain ⟨names, hnames, rfl⟩ := List.mem_map.1 hd
  obtain ⟨⟨hne, ⟨content, hfile⟩, _⟩, _⟩ := Scan.mem_namesBelow_iff.1 hnames
  have hmem : (names, Entry.file content) ∈ notes.tree.entries := FileTree.mem_of_lookup hfile hne
  simp only [notes, List.mem_cons, Prod.mk.injEq, List.not_mem_nil, or_false, reduceCtorEq,
    and_false] at hmem
  exact hmem.imp (fun h => by rw [h.1]) fun h => by rw [h.1]

theorem all_notes_importable (h : ∀ d ∈ ds, d = Scan.document ⟨['.']⟩ ["b.sphst".toList]) :
    (all scripted ⟨"out".toList⟩ notes ds).value.1 = notes := by
  induction ds with
  | nil => rfl
  | cons d ds ih =>
    obtain ⟨rfl, hds⟩ := List.forall_mem_cons.1 h
    rw [all_cons, one_notes_importable, ih hds]

/-- Whatever comes before the one document in any order, it can only be the other one. -/
theorem before_notes {l : Location} {before after ds : List SourceDocument}
    (hl : notes.resolve ⟨['.']⟩ = .ok l)
    (hds : ds.Perm ((Scan.namesBelow notes "sphst".toList [] l).map (Scan.document ⟨['.']⟩)))
    (hsplit : ds = before ++ Scan.document ⟨['.']⟩ ["a.sphst".toList] :: after) :
    ∀ e ∈ before, e = Scan.document ⟨['.']⟩ ["b.sphst".toList] := by
  intro e he
  have hmem : e ∈ ds := hsplit ▸ List.mem_append_left _ he
  refine (mem_documents_notes hl (hds.mem_iff.1 hmem)).resolve_left ?_
  rintro rfl
  have hnodup : ds.Nodup :=
    (found_documents hds : Found notes ⟨['.']⟩ "sphst".toList ds).nodup
  rw [hsplit] at hnodup
  exact List.disjoint_of_nodup_append hnodup he List.mem_cons_self

theorem runIn_truthful_notes : Settings.standard.problem? = none ∧ notes.isDirectory ⟨['.']⟩ ∧
    ∃ w' report scan,
      runIn List.reverse ⟨Registry.builtin, Script.caller, .standard, "sphst".toList⟩ notes ⟨['.']⟩
        ⟨"out".toList⟩ [] = (w', .ok report) ∧
      Scan.run notes ⟨['.']⟩ "sphst".toList [] = .ok scan ∧
      report.events.length = scan.documents.length ∧ w'.tree.lookup ["out".toList] = some .directory ∧
      .written ⟨"a.sphst".toList⟩ ⟨"a.html".toList⟩ (some "Notes".toList) ∈ report.events ∧
      w'.read ⟨"out/a.html".toList⟩ = .ok "<h1>Notes</h1>".toList ∧
      Scan.run w' ⟨['.']⟩ "sphst".toList [] = .ok scan := by
  have hs : Settings.standard.problem? = none := by decide
  have hdir : notes.isDirectory ⟨['.']⟩ := by decide
  have hout : notes.isDirectory ⟨"out".toList⟩ := by decide
  obtain ⟨l, hl, -, hrun⟩ := @Scan.run_directory notes _ "sphst".toList [] hdir
  obtain ⟨w', report, h⟩ : ∃ w' report, runIn List.reverse
      ⟨Registry.builtin, Script.caller, .standard, "sphst".toList⟩ notes ⟨['.']⟩ ⟨"out".toList⟩ [] =
        (w', .ok report) := by
    unfold runIn
    rw [hrun, makeDirectories_of_isDirectory hout]
    exact ⟨_, _, rfl⟩
  obtain ⟨scan, w₀, event, hscan, hmake, hevents, htold, _, hdirectories, hagain⟩ :=
    runIn_truthful hs rfl hdir List.reverse_perm h
  obtain rfl : notes = w₀ :=
    congrArg Prod.fst ((makeDirectories_of_isDirectory hout).symm.trans hmake)
  obtain rfl := Except.ok.inj (hrun.symm.trans hscan)
  have hd : Scan.document ⟨['.']⟩ ["a.sphst".toList] ∈
      (Scan.namesBelow notes "sphst".toList [] l).map (Scan.document ⟨['.']⟩) := by
    obtain rfl : [] = l := Except.ok.inj ((show notes.resolve ⟨['.']⟩ = .ok [] by decide).symm.trans hl)
    exact List.mem_map_of_mem (Scan.mem_namesBelow_iff.2
      ⟨⟨by decide, ⟨.text "title Notes".toList, by decide⟩, by decide⟩, by decide⟩)
  obtain ⟨before, after, hsplit⟩ := List.append_of_mem (List.mem_reverse.2 hd)
  have htold := htold _ _ _ hsplit
  have hstill := all_notes_importable (before_notes hl (List.reverse_perm _) hsplit)
  unfold scripted at hstill
  rw [hstill] at htold
  have hevent := htold.event.trans one_notes
  obtain ⟨page, hpage, -, -, -, hread⟩ := htold.written _ _ _ hevent
  obtain rfl := Except.ok.inj (compileFile_notes.symm.trans hpage)
  refine ⟨hs, hdir, w', report, _, h, hscan, ?_, hdirectories _ (by decide), ?_, hread, hagain⟩
  · rw [hevents, List.length_map]
  · rw [hevents, ← hevent]
    exact List.mem_map_of_mem hd

end Build
end Folio
