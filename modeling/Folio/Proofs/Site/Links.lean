import Folio.Document.Script
import Folio.Proofs.Document.Compilation
import Folio.Proofs.Document.Importable
import Folio.Proofs.Files.Components
import Folio.Proofs.Html.Links
import Folio.Proofs.Script.Confinement
import Folio.Proofs.Site.Pages

namespace Folio.Listing

open Folio.Path Workspace Script

variable {directory t : Text}

/-- The reference from a listing of a directory to the page of a document. -/
def link (directory name : Text) : Text :=
  linkStart directory ++ (splitExtension name).1 ++ ".html".toList

theorem splitOn_slashes (h : ∀ c ∈ t, c = '/') : ∀ s ∈ Text.splitOn '/' t, s = [] := by
  induction t with
  | nil => simp [Text.splitOn]
  | cons c cs ih =>
    obtain rfl := h c List.mem_cons_self
    rw [Text.splitOn, if_pos rfl]
    intro s hs
    rcases List.mem_cons.1 hs with rfl | hs
    · rfl
    · exact ih (fun d hd => h d (List.mem_cons_of_mem _ hd)) s hs

/-- Slashes at the end of a path name nothing. -/
theorem steps_append_slashes {d : Text} (h : ∀ c ∈ t, c = '/') :
    (Path.mk (d ++ t)).steps = (Path.mk d).steps := by
  cases t with
  | nil => rw [List.append_nil]
  | cons c cs =>
    obtain rfl := h c List.mem_cons_self
    have hnone : (Text.splitOn '/' cs).filter (fun s => !isFiller s) = [] := by
      refine List.filter_eq_nil_iff.2 fun s hs => ?_
      rw [splitOn_slashes (fun d hd => h d (List.mem_cons_of_mem _ hd)) s hs]
      simp [isFiller]
    unfold steps Path.segments
    rw [Text.splitOn_append_cons, List.filter_append, hnone, List.append_nil]

theorem linkStart_cases (directory : Text) : ∃ d slashes, (∀ c ∈ slashes, c = '/') ∧
    directory = d ++ slashes ∧
      (linkStart directory = [] ∧ (Path.mk directory).steps = [] ∨
        linkStart directory = d ++ ['/'] ∧ d ≠ []) := by
  have hsplit : directory = (directory.reverse.dropWhile fun c => decide (c = '/')).reverse ++
      (directory.reverse.takeWhile fun c => decide (c = '/')).reverse := by
    rw [← List.reverse_append, List.takeWhile_append_dropWhile, List.reverse_reverse]
  have hslashes : ∀ c ∈ (directory.reverse.takeWhile fun c => decide (c = '/')).reverse, c = '/' := by
    intro c hc
    have htest := List.mem_takeWhile_imp (List.mem_reverse.1 hc)
    exact of_decide_eq_true htest
  refine ⟨_, _, hslashes, hsplit, ?_⟩
  have hsteps := steps_append_slashes (d := (directory.reverse.dropWhile fun c => decide (c = '/')).reverse)
    hslashes
  rw [← hsplit] at hsteps
  unfold linkStart
  dsimp only
  generalize (directory.reverse.dropWhile fun c => decide (c = '/')).reverse = d at hsteps ⊢
  by_cases hd : d.isEmpty || d = ['.']
  · rw [if_pos hd]
    refine Or.inl ⟨rfl, hsteps.trans ?_⟩
    rw [Bool.or_eq_true, List.isEmpty_iff, decide_eq_true_eq] at hd
    rcases hd with rfl | rfl <;> rfl
  · rw [if_neg hd]
    rw [Bool.or_eq_true, not_or, List.isEmpty_iff] at hd
    exact Or.inr ⟨rfl, hd.1⟩

/-- A name after the start of the links of a directory is a path to what has that name in it. -/
theorem steps_linkStart (h : ¬ (Path.mk directory).isAbsolute) (ht : IsSegment t) :
    ¬ (Path.mk (linkStart directory ++ t)).isAbsolute ∧
      (Path.mk (linkStart directory ++ t)).steps = (Path.mk directory).steps ++ [t] := by
  have hname := steps_single ht
  obtain ⟨d, slashes, hslashes, rfl, hcase⟩ := linkStart_cases directory
  rw [steps_append_slashes hslashes] at hcase ⊢
  rcases hcase with ⟨hstart, hsteps⟩ | ⟨hstart, hd⟩
  · rw [hstart, hsteps, List.nil_append, List.nil_append, hname]
    exact ⟨not_isAbsolute_single ht, rfl⟩
  · obtain ⟨c, cs, rfl⟩ := List.exists_cons_of_ne_nil hd
    rw [hstart]
    refine ⟨h, ?_⟩
    unfold steps Path.segments at hname ⊢
    rw [List.append_assoc, List.singleton_append, Text.splitOn_append_cons, List.filter_append, hname]

theorem hrefs_item (href title r : Text) :
    Html.hrefs (Html.element "li".toList [] (Html.element ['a'] [("href".toList, href)]
      (Html.escape title)) ++ r) = href :: Html.hrefs r := by
  have hopening : Html.startTag "li".toList [] = '<' :: 'l' :: "i>".toList := by decide
  have hclosing : Html.endTag "li".toList = '<' :: '/' :: "li>".toList := by decide
  generalize hlink : Html.element ['a'] [("href".toList, href)] (Html.escape title) = markup
  rw [Html.element, List.append_assoc, List.append_assoc, hopening, Html.hrefs_tag (by decide) (by decide),
    ← hlink, Html.hrefs_link, hclosing, Html.hrefs_tag (by decide) (by decide)]

/-- The links in the markup of a listing are those to the documents that it shows. -/
theorem hrefs_listingMarkup (directory : Text) (entries : List ListingEntry) (extension : Text) :
    Html.hrefs (listingMarkup directory entries extension) =
      (entries.filter fun e => e.isDocument extension && !e.importable).map fun e =>
        linkStart directory ++ e.path.stem?.getD [] ++ ".html".toList := by
  have hopening : Html.startTag "ul".toList [("class".toList, "listing".toList)] =
      '<' :: 'u' :: "l class=\"listing\">".toList := by decide
  have hclosing : Html.endTag "ul".toList = '<' :: '/' :: "ul>".toList := by decide
  unfold listingMarkup
  dsimp only
  generalize entries.filter (fun e => e.isDocument extension && !e.importable) = shown
  rw [Html.element, List.append_assoc, hopening, Html.hrefs_tag (by decide) (by decide)]
  induction shown with
  | nil =>
    rw [List.flatMap_nil, List.nil_append, hclosing]
    rfl
  | cons e es ih => rw [List.flatMap_cons, List.append_assoc, hrefs_item, ih, List.map_cons]

variable {w : Workspace} {extension n : Text} {d : Location}

/-- A document of a directory that has a page of its own. -/
structure HasPage (w : Workspace) (d : Location) (extension n : Text) : Prop where
  file : ∃ c, w.tree.lookup (d ++ [n]) = some (.file c)
  extension : ∃ stem, splitExtension n = (stem, some extension)
  listed : ∀ source, w.readAt (d ++ [n]) = .ok source → ¬ declaresImportable source

theorem path_entryAt (w : Workspace) (directory : Path) (d : Location) (extension n : Text) :
    (entryAt w directory d extension n).value.path = directory.join ⟨n⟩ := by
  unfold entryAt
  dsimp only
  split
  · split <;> rfl
  · rfl

section Child

variable (hn : n ∈ w.tree.children d) (directory : Path)
include hn

theorem stem?_entryAt :
    (entryAt w directory d extension n).value.path.stem? = some (splitExtension n).1 := by
  have hname := isName_of_child hn
  obtain ⟨before, hbefore⟩ := segments_child hn directory
  rw [path_entryAt, stem?_of_segments hbefore (not_isFiller hname) hname.ne_dots]

/-- The entry of a name is shown exactly if its document has a page. -/
theorem shown_entryAt : ((entryAt w directory d extension n).value.isDocument extension &&
    !(entryAt w directory d extension n).value.importable) = true ↔ HasPage w d extension n := by
  have hname := isName_of_child hn
  obtain ⟨before, hbefore⟩ := segments_child hn directory
  have hextension := @hasExtension_iff _ _ _ hbefore (not_isFiller hname) hname.ne_dots extension
  obtain ⟨entry, hentry⟩ := FileTree.mem_children_iff.1 hn
  have hdocument : (bare directory (w.tree.isDirectory (d ++ [n])) n).isDocument extension = true ↔
      (∃ c, w.tree.lookup (d ++ [n]) = some (.file c)) ∧
        ∃ stem, splitExtension n = (stem, some extension) := by
    rw [← hextension, ListingEntry.isDocument, Bool.and_eq_true, bare, FileTree.isDirectory, hentry]
    cases entry <;> simp
  unfold entryAt
  dsimp only
  by_cases h : (bare directory (w.tree.isDirectory (d ++ [n])) n).isDocument extension = true
  · obtain ⟨hfile, hstem⟩ := hdocument.1 h
    rw [if_pos h]
    cases hread : w.readAt (d ++ [n]) with
    | error fault =>
      refine iff_of_true ?_ ⟨hfile, hstem, fun source hsource => ?_⟩
      · simpa [Logged.warn, bare] using h
      · rw [hread] at hsource
        cases hsource
    | ok source =>
      have hshown : (bare directory (w.tree.isDirectory (d ++ [n])) n).isDocument extension &&
          !declaresImportable source ↔ ¬ declaresImportable source := by simp [h]
      refine hshown.trans ⟨fun hnot => ⟨hfile, hstem, fun s hs => ?_⟩, fun hpage => hpage.listed _ hread⟩
      rw [hread] at hs
      exact Except.ok.inj hs ▸ hnot
  · rw [if_neg h]
    refine iff_of_false ?_ fun hpage => h (hdocument.2 ⟨hpage.file, hpage.extension⟩)
    simp [Logged.pure, h]

end Child

variable {c : Compiler} {v : View} {entries : List ListingEntry}

/-- A listing shows what lies where its path leads below the directory of the document. -/
theorem list_eq_ok (hbase : v.base = pathOf d) (hdir : v.workspace.tree.lookup d = some .directory)
    (h : (v.list directory).value = .ok entries) : View.isWithin ⟨directory⟩ ∧
      entries = (v.workspace.tree.children (d ++ (Path.mk directory).steps)).map fun n =>
        (entryAt v.workspace (v.base.join ⟨directory⟩) (d ++ (Path.mk directory).steps) v.extension
          n).value := by
  unfold View.list at h
  split at h
  · rename_i hwithin
    refine ⟨hwithin, ?_⟩
    obtain ⟨hrelative, hnames⟩ := View.names_of_isWithin hwithin
    unfold list at h
    split at h
    · cases h
    · rename_i m hm
      have hd : m = d ++ (Path.mk directory).steps := by
        rw [resolve_eq_lexical hm, hbase, lexical_join hrelative,
          lexical_pathOf (FileTree.isName_of_lookup hdir), ← follow_steps, follow_of_names hnames]
      rw [← hd]
      exact (Except.ok.inj h).symm.trans (List.map_map ..)
  · cases h

/-- The links of a listing are those to the documents of the directory that have a page, in the order
of their names. -/
theorem exists_hrefs (hbase : v.base = pathOf d) (hdir : v.workspace.tree.lookup d = some .directory)
    (h : (v.list directory).value = .ok entries) : ∃ names : List Text,
      names.Pairwise (fun m n => Text.le m n ∧ m ≠ n) ∧
      (∀ n, n ∈ names ↔ HasPage v.workspace (d ++ (Path.mk directory).steps) v.extension n) ∧
      Html.hrefs (listingMarkup directory entries v.extension) = names.map (link directory) := by
  obtain ⟨-, rfl⟩ := list_eq_ok hbase hdir h
  rw [hrefs_listingMarkup, List.filter_map, List.map_map]
  generalize d ++ (Path.mk directory).steps = d
  generalize v.base.join ⟨directory⟩ = path
  refine ⟨_, ?_, fun n => ?_, List.map_congr_left fun n hn => ?_⟩
  · have hsorted : (v.workspace.tree.children d).Pairwise fun m n => Text.le m n ∧ m ≠ n :=
      FileTree.sorted_children.and FileTree.nodup_children
    exact hsorted.filter _
  · rw [List.mem_filter]
    constructor
    · rintro ⟨hn, hshown⟩
      exact (shown_entryAt hn path).1 hshown
    · intro hpage
      obtain ⟨c, hc⟩ := hpage.file
      have hn : n ∈ v.workspace.tree.children d := FileTree.mem_children_iff.2 ⟨_, hc⟩
      exact ⟨hn, (shown_entryAt hn path).2 hpage⟩
  · have hchild := (List.mem_filter.1 hn).1
    rw [Function.comp_apply, stem?_entryAt hchild, Option.getD_some]
    rfl

section Link

variable {names : List Text} {stem old : Text}
  (hwithin : View.isWithin ⟨directory⟩) (hnames : ∀ m ∈ names, IsName m)
  (hbelow : ∀ m ∈ (Path.mk directory).steps, IsName m) (hn : IsName n)
  (hsplit : splitExtension n = (stem, some old)) (hstem : stem ≠ ['.'])
include hwithin hn hsplit

theorem steps_link : ¬ (Path.mk (link directory n)).isAbsolute ∧
    (Path.mk (link directory n)).steps =
      (Path.mk directory).steps ++ [stem ++ '.' :: Build.pageExtension] := by
  obtain ⟨rfl, hne, _⟩ := splitExtension_eq_iff.1 hsplit
  have hdot : ".html".toList = '.' :: Build.pageExtension := by decide
  have hsegment : IsSegment (stem ++ '.' :: Build.pageExtension) := by
    refine ⟨(Build.page_is_name hne).1, ?_⟩
    rw [List.mem_append, not_or]
    exact ⟨fun h => hn.slash_not_mem (List.mem_append_left _ h), by decide⟩
  rw [link, hsplit, List.append_assoc, hdot]
  exact steps_linkStart (View.names_of_isWithin hwithin).1 hsegment

include hstem

/-- A link, read from where the document lies, spells the path of the page of a document. -/
theorem plain_link : ((ofNames names).join ⟨link directory n⟩).plain =
    ((((ofNames names).join ⟨directory⟩).join ⟨n⟩).withExtension Build.pageExtension).plain := by
  obtain ⟨hrelative, hlink⟩ := steps_link hwithin hn hsplit
  have hdirectory := (View.names_of_isWithin hwithin).1
  have hsegment := isSegment_of_isName hn
  have hname := not_isAbsolute_single hsegment
  obtain ⟨before, hsegments, _⟩ :=
    segments_join (p := (ofNames names).join ⟨directory⟩) hname
  rw [segments_single hsegment] at hsegments
  have hne : Build.pageExtension ≠ [] := by decide
  obtain ⟨habsolute, hsteps⟩ :=
    steps_withExtension hsegments (not_isFiller hn) hn.ne_dots hsplit hstem hne (by decide)
  rw [steps_join hname, steps_single hsegment, List.dropLast_concat] at hsteps
  rw [plain_eq, plain_eq, isAbsolute_join hrelative, steps_join hrelative, hlink, habsolute, hsteps,
    isAbsolute_join hname, isAbsolute_join hdirectory, steps_join hdirectory, List.append_assoc]

include hnames hbelow

/-- A link that is followed from the page of the document with the listing leads to where a build
writes the page of the document that it names. -/
theorem lexical_link (w : Workspace) (output : Path) :
    w.lexical ((output.join (ofNames names)).join ⟨link directory n⟩) =
      w.lexical (Build.outputPath output (ofNames (names ++ (Path.mk directory).steps ++ [n]))) := by
  obtain ⟨hrelative, hlink⟩ := steps_link hwithin hn hsplit
  have hsegments : ∀ m ∈ names, IsSegment m := fun m hm => isSegment_of_isName (hnames m hm)
  have hall : ∀ m ∈ names ++ (Path.mk directory).steps ++ [n], IsName m := by
    intro m hm
    simp only [List.mem_append, List.mem_singleton] at hm
    rcases hm with (hm | hm) | rfl
    · exact hnames m hm
    · exact hbelow m hm
    · exact hn
  have hpage : ∀ m ∈ (Path.mk directory).steps ++ [stem ++ '.' :: Build.pageExtension],
      ¬ isFiller m ∧ m ≠ ['.', '.'] := by
    intro m hm
    rcases List.mem_append.1 hm with hm | hm
    · exact (View.names_of_isWithin hwithin).2 m hm
    · rw [List.mem_singleton.1 hm]
      exact Build.page_is_name (splitExtension_eq_iff.1 hsplit).2.1
  rw [Build.lexical_outputPath hall hsplit w output hstem, lexical_join hrelative,
    lexical_join (not_isAbsolute_ofNames hsegments), ← follow_steps _ (ofNames names),
    steps_ofNames hsegments, ← follow_steps, hlink, follow_names hnames, follow_of_names hpage]
  simp only [List.append_assoc]

end Link

/-- A file that compiles has a page of its own, as a listing sees it, unless its page is meant for
import. -/
theorem hasPage_iff (hc : c.registry = Registry.builtin) {q : Path} {page : Page}
    (hext : ∃ stem, splitExtension n = (stem, some extension)) (hq : w.resolve q = .ok (d ++ [n]))
    (hpage : (c.compileFile w q).value = .ok page) :
    HasPage w d extension n ↔ page.importable = false := by
  cases hread : w.readAt (d ++ [n]) with
  | error fault =>
    have hfault : w.read q = .error fault := by
      rw [Workspace.read, hq]
      exact hread
    rw [Compiler.compileFile_unreadable hfault] at hpage
    cases hpage
  | ok source =>
    have himportable : page.importable = declaresImportable source := by
      rw [Compiler.compileFile_readable hq hread] at hpage
      generalize (Import.expand _ _ _ _ _ _ _).value = expanded at hpage
      cases expanded with
      | error fault => cases hpage
      | ok resolved =>
        rw [declaresImportable_eq, ← hc, ← Except.ok.inj hpage]
        rfl
    rw [himportable, ← Bool.not_eq_true]
    constructor
    · exact fun h => h.listed source hread
    · intro h
      refine ⟨⟨_, lookup_of_readAt hread⟩, hext, fun s hs => ?_⟩
      rw [hread] at hs
      exact Except.ok.inj hs ▸ h

theorem skipped_iff {q : Path} {page : Page} (hpage : (c.compileFile w q).value = .ok page)
    (output relative : Path) :
    (Build.one c output w ⟨q, relative⟩).value.2 = .skipped relative ↔ page.importable := by
  unfold Build.one Logged.bind
  dsimp only
  rw [hpage]
  dsimp only
  by_cases himportable : page.importable
  · rw [if_pos himportable]
    exact iff_of_true rfl himportable
  · rw [if_neg himportable]
    refine iff_of_false ?_ himportable
    split <;> exact BuildEvent.noConfusion

/-- Listings and builds agree. -/
theorem perform_list_agrees (hc : c.registry = Registry.builtin) {l : Location} {p : List Text}
    (hdir : w.tree.lookup (l ++ p) = some .directory) {f : Frontmatter} {vars : Variables}
    {line : Nat} {a : Option Text} (ha : a.getD ['.'] = directory) {b b' : Buffers}
    (h : (perform ⟨w, pathOf (l ++ p), c.extension, f, vars⟩ line ⟨"list".toList, a⟩ b).value =
      .ok b') :
    ∃ markup, ∃ names : List Text, b' = b.pushBody markup ∧
      names.Pairwise (fun m n => Text.le m n ∧ m ≠ n) ∧
      Html.hrefs markup = names.map (link directory) ∧
      (∀ n, n ∈ names ↔
        HasPage w (l ++ p ++ (Path.mk directory).steps) c.extension n) ∧
      (∀ n ∈ names, (splitExtension n).1 ≠ ['.'] →
        ((ofNames p).join ⟨link directory n⟩).plain =
          ((((ofNames p).join ⟨directory⟩).join ⟨n⟩).withExtension Build.pageExtension).plain ∧
        ∀ output, w.lexical ((output.join (ofNames p)).join ⟨link directory n⟩) =
          w.lexical (Build.outputPath output (ofNames (p ++ (Path.mk directory).steps ++ [n])))) ∧
      ∀ n q page, (∃ stem, splitExtension n = (stem, some c.extension)) →
        w.resolve q = .ok (l ++ p ++ (Path.mk directory).steps ++ [n]) →
        (c.compileFile w q).value = .ok page →
        (n ∉ names ↔ page.importable) ∧ ∀ output relative,
          (Build.one c output w ⟨q, relative⟩).value.2 = .skipped relative ↔ page.importable := by
  rw [perform_list, ha] at h
  dsimp only at h
  cases hlist : (View.list ⟨w, pathOf (l ++ p), c.extension, f, vars⟩ directory).value with
  | error fault =>
    rw [hlist] at h
    cases h
  | ok entries =>
    rw [hlist] at h
    obtain ⟨hwithin, -⟩ := list_eq_ok rfl hdir hlist
    obtain ⟨names, hsorted, hmem, hhrefs⟩ := exists_hrefs rfl hdir hlist
    refine ⟨_, names, (Except.ok.inj h).symm, hsorted, hhrefs, hmem, fun n hn hstem => ?_,
      fun n q page hext hq hpage => ⟨?_, fun output relative => skipped_iff hpage output relative⟩⟩
    · -- the link is followed from the page with the listing
      obtain ⟨content, hfile⟩ := ((hmem n).1 hn).file
      have hall := FileTree.isName_of_lookup hfile
      have hsplit : splitExtension n = ((splitExtension n).1, some c.extension) := by
        obtain ⟨stem, hstem⟩ := ((hmem n).1 hn).extension
        rw [hstem]
      have hn : IsName n := hall n (by simp)
      have hnames : ∀ m ∈ p, IsName m := fun m hm => hall m (by simp [hm])
      have hbelow : ∀ m ∈ (Path.mk directory).steps, IsName m := fun m hm => hall m (by simp [hm])
      exact ⟨plain_link hwithin hn hsplit hstem,
        lexical_link hwithin hnames hbelow hn hsplit hstem w⟩
    · rw [hmem, hasPage_iff hc hext hq hpage]
      simp

/-- A directory with two documents, one of them for import only. -/
def shelf : Workspace where
  tree := {
    entries := [(["docs".toList, "a.sphst".toList], .file (.text "title A".toList)),
      (["docs".toList, "b.sphst".toList], .file (.text "importable".toList)),
      (["docs".toList], .directory)]
    nodup := by decide
    named := by decide
    closed := by decide }
  home := []

theorem perform_list_shelf : shelf.tree.lookup [] = some .directory ∧
    ∃ b', (perform ⟨shelf, pathOf [], "sphst".toList, [], []⟩ 1 ⟨"list".toList, some "docs/".toList⟩
      .empty).value = .ok b' ∧ ∃ markup, ∃ names : List Text, b' = Buffers.empty.pushBody markup ∧
        Html.hrefs markup = names.map (link "docs/".toList) ∧
        "a.sphst".toList ∈ names ∧ "b.sphst".toList ∉ names := by
  have hdir : shelf.tree.lookup ([] ++ []) = some .directory := rfl
  have hwithin : View.isWithin ⟨"docs/".toList⟩ := by decide
  have hdocs : shelf.resolve ((pathOf []).join ⟨"docs/".toList⟩) = .ok ["docs".toList] := by decide
  obtain ⟨b', hb⟩ : ∃ b', (perform ⟨shelf, pathOf [], "sphst".toList, [], []⟩ 1
      ⟨"list".toList, some "docs/".toList⟩ .empty).value = .ok b' := by
    rw [perform_list, View.list, Option.getD_some, if_pos hwithin, list, hdocs]
    exact ⟨_, rfl⟩
  obtain ⟨markup, names, hmarkup, _, hhrefs, hmem, _⟩ :=
    perform_list_agrees (c := ⟨Registry.builtin, Script.caller, .standard, "sphst".toList⟩)
      (p := []) rfl hdir rfl hb
  refine ⟨hdir, b', hb, markup, names, hmarkup, hhrefs, (hmem _).2 ?_, fun hin => ?_⟩
  · refine ⟨⟨.text "title A".toList, by decide⟩, ⟨['a'], by decide⟩, fun source hsource => ?_⟩
    have htext : shelf.readAt ["docs".toList, "a.sphst".toList] = .ok "title A".toList := by decide
    rw [← Except.ok.inj (htext.symm.trans hsource)]
    decide +kernel
  · exact ((hmem _).1 hin).listed "importable".toList (by decide) (by decide +kernel)

/-- A document that has two dots before its extension: its name without it is a dot. -/
def dots : Workspace where
  tree := {
    entries := [(["..sphst".toList], .file (.text "title Dots".toList))]
    nodup := by decide
    named := by decide
    closed := by decide }
  home := []

/-- The document of dots is linked with a page that no build writes. -/
theorem perform_list_dots : ∃ markup, ∃ names : List Text,
    (perform ⟨dots, pathOf [], "sphst".toList, [], []⟩ 1 ⟨"list".toList, none⟩ .empty).value =
      .ok (Buffers.empty.pushBody markup) ∧
    Html.hrefs markup = names.map (link ['.']) ∧ "..sphst".toList ∈ names ∧
    link ['.'] "..sphst".toList = "..html".toList ∧
    (Path.mk "..html".toList).plain ≠
      ((Path.mk "..sphst".toList).withExtension Build.pageExtension).plain ∧
    Build.outputPath ⟨"out".toList⟩ ⟨"..sphst".toList⟩ = ⟨"out/..".toList⟩ := by
  have hdir : dots.tree.lookup [] = some .directory := rfl
  have hwithin : View.isWithin ⟨['.']⟩ := by decide
  have hroot : dots.resolve ((pathOf []).join ⟨['.']⟩) = .ok [] := by decide
  obtain ⟨entries, hentries⟩ : ∃ entries,
      (View.list ⟨dots, pathOf [], "sphst".toList, [], []⟩ ['.']).value = .ok entries := by
    rw [View.list, if_pos hwithin, list, hroot]
    exact ⟨_, rfl⟩
  obtain ⟨names, _, hmem, hhrefs⟩ := exists_hrefs rfl hdir hentries
  refine ⟨_, names, ?_, hhrefs, (hmem _).2 ?_, by decide, by decide, by decide⟩
  · rw [perform_list, Option.getD_none, hentries]
    rfl
  · refine ⟨⟨.text "title Dots".toList, by decide⟩, ⟨['.'], by decide⟩, fun source hsource => ?_⟩
    have htext : dots.readAt ["..sphst".toList] = .ok "title Dots".toList := by decide
    rw [← Except.ok.inj (htext.symm.trans hsource)]
    decide +kernel

end Folio.Listing
