import Folio.Proofs.Import.Growth
import Folio.Proofs.Script.Confinement
import Folio.Proofs.Site.Settings

namespace Folio

open Folio.Path Workspace

/-- The last name of a location ends with the extension of documents. -/
def NamesDocument (extension : Text) (l : Location) : Prop :=
  ∃ init n, l = init ++ [n] ∧ '.' :: extension <:+ n

/-- Two workspaces with the same directories and the same files, of which the documents have the same
content. -/
structure SameDocuments (extension : Text) (w w' : Workspace) : Prop where
  home : w'.home = w.home
  kinds : ∀ l, w'.tree.kindAt l = w.tree.kindAt l
  documents : ∀ l, NamesDocument extension l → w'.tree.lookup l = w.tree.lookup l

variable {extension : Text} {w w' : Workspace}

/-- The extension of valid settings is a part of one name. -/
theorem Settings.slash_not_mem_extension {s : Settings} (hs : s.problem? = none) :
    '/' ∉ s.extension := fun hslash => ((problem?_eq_none_iff.1 hs).bare '/' hslash).2.1 rfl

namespace SameDocuments

/-- Every path leads to the same place, or fails in the same way. -/
theorem resolve (h : SameDocuments extension w w') (p : Path) : w'.resolve p = w.resolve p := by
  have hstart : w'.start p = w.start p := by
    unfold Workspace.start
    rw [h.home]
  have hwalk : w'.walk (w.start p) p.segments = w.walk (w.start p) p.segments := by
    apply walk_congr fun _ => True
    · intro l _
      exact h.kinds l
    · intros
      trivial
    · trivial
  unfold Workspace.resolve
  rw [hstart, hwalk]

theorem readAt (h : SameDocuments extension w w') {l : Location} (hl : NamesDocument extension l) :
    w'.readAt l = w.readAt l := readAt_congr (h.documents l hl)

end SameDocuments

theorem namesDocument_concat_iff {l : Location} {n : Text} :
    NamesDocument extension (l ++ [n]) ↔ '.' :: extension <:+ n := by
  constructor
  · rintro ⟨init, m, h, hm⟩
    rwa [List.singleton_inj.1 (List.append_inj' h rfl).2]
  · intro h
    exact ⟨l, n, rfl, h⟩

/-- A file that is no document may hold anything. -/
theorem sameDocuments_put {l : Location} {c c' : Content} (hfile : w.tree.lookup l = some (.file c))
    (hl : ¬ NamesDocument extension l) (h : w.tree.Admits l (.file c')) :
    SameDocuments extension w { w with tree := w.tree.put l (.file c') h } := by
  have hlookup (m : Location) : (w.tree.put l (.file c') h).lookup m =
      if m = l then some (.file c') else w.tree.lookup m := FileTree.lookup_put h
  refine ⟨rfl, ?_, ?_⟩
  · intro m
    unfold FileTree.kindAt
    dsimp only
    rw [hlookup]
    split
    · rename_i hm
      rw [hm, hfile]
      rfl
    · rfl
  · intro m hm
    have hne : m ≠ l := by
      rintro rfl
      exact hl hm
    dsimp only
    rw [hlookup, if_neg hne]

namespace Import

variable {r : Registry} {base within path : Path} {chain : List Location} {n : Node} {ns : List Node}
  {l : Location}

/-- However the reference of an import is written, the file that it leads to is a document. -/
theorem namesDocument_of_role (hslash : '/' ∉ extension) {c : Content}
    (hrole : role extension w base n = .document path l) (hfile : w.tree.lookup l = some (.file c)) :
    NamesDocument extension l := by
  obtain ⟨_, hclass, hresolve⟩ := role_eq_document_iff.1 hrole
  obtain ⟨before, m, init, hsegments, hfiller, hdots, rfl⟩ := exists_last_of_join hresolve hfile
  exact ⟨init, m, rfl, suffix_of_classify hslash hclass hsegments hfiller hdots⟩

theorem namesDocument_of_leads (hslash : '/' ∉ extension) (h : Leads extension w base ns l) :
    NamesDocument extension l := by
  obtain ⟨n, _, hk, path, hclass, hresolve, text, htext⟩ := h
  have hrole := role_eq_document_iff.2 ⟨hk, hclass, hresolve⟩
  exact namesDocument_of_role hslash hrole (lookup_of_readAt htext)

/-- What an import leads to is read with the same result. -/
theorem readAt_of_role (hslash : '/' ∉ extension) (h : SameDocuments extension w w')
    (hrole : role extension w base n = .document path l) : w'.readAt l = w.readAt l := by
  by_cases hfile : ∃ c, w.tree.lookup l = some (.file c)
  · obtain ⟨c, hc⟩ := hfile
    exact h.readAt (namesDocument_of_role hslash hrole hc)
  · apply readAt_congr_of_not_file (h.kinds l)
    intro c hc
    exact hfile ⟨c, hc⟩

/-- Imports are expanded to the same nodes. -/
theorem expand_sameDocuments (hslash : '/' ∉ extension) (h : SameDocuments extension w w') :
    (expand r extension w' base within chain ns).value =
      (expand r extension w base within chain ns).value := by
  apply expand_induction r extension w (motive := fun base within chain ns =>
    (expand r extension w' base within chain ns).value =
      (expand r extension w base within chain ns).value)
  · intro base within chain
    rw [expand_nil, expand_nil]
  · intro base within chain n ns ihdoc ihrest
    have hrole : role extension w' base n = role extension w base n :=
      role_congr fun _ path _ => h.resolve (base.join path)
    have hpiece : piece r extension w' base within chain n = piece r extension w base within chain n := by
      apply piece_congr hrole
      · intro path l hr
        exact readAt_of_role hslash h hr
      · exact ihdoc
    rw [expand_cons, expand_cons, hpiece, ihrest]

end Import

theorem Listing.namesDocument_of_child {d : Location} {n : Text} {directory : Path}
    (hn : n ∈ w.tree.children d) (h : (directory.join ⟨n⟩).hasExtension extension) :
    NamesDocument extension (d ++ [n]) := by
  have hname := isName_of_child hn
  obtain ⟨before, hbefore⟩ := segments_child hn directory
  obtain ⟨stem, hsplit⟩ := (hasExtension_iff hbefore (not_isFiller hname) hname.ne_dots).1 h
  refine ⟨d, n, rfl, stem, ?_⟩
  exact (splitExtension_eq_iff.1 hsplit).1.symm

/-- Scripts find the same entries in a directory. -/
theorem Script.View.list_sameDocuments {v : Script.View}
    (h : SameDocuments v.extension v.workspace w') (a : Text) :
    ({ v with workspace := w' } : Script.View).list a = v.list a := by
  have hsame : Listing.list w' (v.base.join ⟨a⟩) v.extension =
      Listing.list v.workspace (v.base.join ⟨a⟩) v.extension := by
    apply Listing.list_congr (h.resolve _)
    intro l _
    constructor
    · intro n
      exact h.kinds (l ++ [n])
    · intro n hn hextension
      exact h.readAt (Listing.namesDocument_of_child hn hextension)
  unfold Script.View.list
  dsimp only
  rw [hsame]

namespace Compiler

/-- A page depends on the documents only. Whatever other files hold, the text of a document compiles to
the same page, or reports the same cycle; and whatever the reference of an import, the file that it
takes a text from is a document. -/
theorem compile_sameDocuments {s : Settings} (hs : s.problem? = none) {c : Compiler}
    (hc : c.extension = s.extension) (hhost : c.host = Script.caller ∨ c.host = Script.idle) :
    (∀ w w', SameDocuments c.extension w w' → ∀ base source,
      (c.compile w' base source).value = (c.compile w base source).value) ∧
    ∀ w base ns l, Import.Leads c.extension w base ns l → NamesDocument c.extension l := by
  have hslash : '/' ∉ c.extension := hc ▸ Settings.slash_not_mem_extension hs
  constructor
  · intro w w' h base source
    have hrun (f : Frontmatter) (vars : Variables) (code : Text) (b : Script.Buffers) :
        (c.host.run ⟨w', base, c.extension, f, vars⟩ code b).value =
          (c.host.run ⟨w, base, c.extension, f, vars⟩ code b).value := by
      -- one host reads listings, the other nothing
      rcases hhost with hhost | hhost
      · have hlist := Script.View.list_sameDocuments (v := ⟨w, base, c.extension, f, vars⟩) h
        rw [hhost]
        exact congrArg Logged.value (Script.run_congr (fun a _ => hlist a) b)
      · rw [hhost]
        rfl
    have hexpand : (Import.expand c.registry c.extension w' base .empty []
        (nodesOf c.registry source).value).value = _ := Import.expand_sameDocuments hslash h
    have hpage (resolved : List Node) :
        c.pageOf w' base (nodesOf c.registry source).value resolved =
          c.pageOf w base (nodesOf c.registry source).value resolved :=
      pageOf_congr (fun n _ _ f vars b => hrun f vars (n.text?.getD []) b) _
    unfold compile
    rw [compileWithin_value, compileWithin_value, hexpand, funext hpage]
  · intro w base ns l hlead
    exact Import.namesDocument_of_leads hslash hlead

/-- A document and a file that is none. -/
def annotated : Workspace where
  tree := {
    entries := [(["a.sphst".toList], .file (.text "title A".toList)),
      (["notes.txt".toList], .file (.text "first".toList))]
    nodup := by decide
    named := by decide
    closed := by decide }
  home := []

theorem admits_annotated : annotated.tree.Admits ["notes.txt".toList] (.file (.text "second".toList)) := by
  decide

/-- The same with another text in the file. -/
def annotatedAgain : Workspace :=
  { annotated with tree := annotated.tree.put ["notes.txt".toList] _ admits_annotated }

theorem compile_sameDocuments_annotated :
    Settings.standard.problem? = none ∧
    SameDocuments "sphst".toList annotated annotatedAgain ∧
    annotated.readAt ["notes.txt".toList] = .ok "first".toList ∧
    annotatedAgain.readAt ["notes.txt".toList] = .ok "second".toList ∧
    (Compiler.compile ⟨Registry.builtin, Script.caller, .standard, "sphst".toList⟩ annotatedAgain ⟨['.']⟩
      "import notes.txt\n\nimport ./a\n\nscript\n\tlist()".toList).value =
    (Compiler.compile ⟨Registry.builtin, Script.caller, .standard, "sphst".toList⟩ annotated ⟨['.']⟩
      "import notes.txt\n\nimport ./a\n\nscript\n\tlist()".toList).value := by
  have hs : Settings.standard.problem? = none := by decide
  have hfile : annotated.tree.lookup ["notes.txt".toList] = some (.file (.text "first".toList)) := by
    decide
  have hnot : ¬ NamesDocument "sphst".toList ["notes.txt".toList] := by
    intro h
    exact absurd ((@namesDocument_concat_iff _ [] _).1 h) (by decide)
  have hsame : SameDocuments "sphst".toList annotated annotatedAgain :=
    sameDocuments_put hfile hnot admits_annotated
  obtain ⟨hpages, -⟩ := compile_sameDocuments hs
    (c := ⟨Registry.builtin, Script.caller, .standard, "sphst".toList⟩) rfl (Or.inl rfl)
  exact ⟨hs, hsame, by decide, by decide, hpages _ _ hsame _ _⟩

end Compiler
end Folio
