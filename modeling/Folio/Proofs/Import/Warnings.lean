import Folio.Proofs.Document.Advancing
import Folio.Proofs.Document.ImportLine
import Folio.Proofs.Import.Placement

namespace Folio.Import

namespace Placed

/-- The node imports a document that can be read. -/
structure Imports (extension : Text) (w : Workspace) (p : Placed) (path : Path) (l : Location)
    (source : Text) : Prop where
  kind : p.node.kind = Kind.importKind
  reference : classify (reference p.node) extension = .document path
  location : w.resolve (p.directory.join path) = .ok l
  text : w.readAt l = .ok source

/-- What is said of a node: of an import that is not supported, is not found or cannot be read. -/
def warning? (extension : Text) (w : Workspace) (p : Placed) : Option Warning :=
  if p.node.kind = Kind.importKind then
    match classify (Import.reference p.node) extension with
    | .stylesheet => none
    | .unsupported => some (.unsupportedImport (Import.reference p.node))
    | .document path =>
      match w.resolve (p.directory.join path) with
      | .error fault => some (.importNotFound (p.directory.join path) fault)
      | .ok l =>
        match w.readAt l with
        | .error fault => some (.importUnreadable (Workspace.pathOf l) fault)
        | .ok _ => none
  else none

/-- What is left of a node itself. The import of a stylesheet leaves one node, any other import and
the flag of documents for import nothing; all else is left as it is. -/
def leaves (extension : Text) (p : Placed) : List Node :=
  if p.node.kind = Kind.importable then []
  else if p.node.kind = Kind.importKind then
    if classify (Import.reference p.node) extension = .stylesheet then
      [.scalar Kind.importKind (rebase (within p.route) (Import.reference p.node))]
    else []
  else [p.node]

end Placed

/-- The nodes that are met at the end of a route and in a directory, in the order in which they are
met: an import of a document that can be read comes before the nodes of that document. -/
inductive Meets (r : Registry) (extension : Text) (w : Workspace) :
    Path → List Path → List Node → List Placed → Prop
  | nil {base : Path} {route : List Path} : Meets r extension w base route [] []
  | alone {base : Path} {route : List Path} {n : Node} {ns : List Node} {ms : List Placed} :
      (∀ path l source, ¬ Placed.Imports extension w ⟨route, base, n⟩ path l source) →
      Meets r extension w base route ns ms →
      Meets r extension w base route (n :: ns) (⟨route, base, n⟩ :: ms)
  | document {base path : Path} {route : List Path} {n : Node} {ns : List Node}
      {inner ms : List Placed} {l : Location} {source : Text} :
      Placed.Imports extension w ⟨route, base, n⟩ path l source →
      Meets r extension w (Workspace.pathOf l.dropLast) (route ++ [path])
        (nodesOf r source).value inner →
      Meets r extension w base route ns ms →
      Meets r extension w base route (n :: ns) (⟨route, base, n⟩ :: (inner ++ ms))

variable {r : Registry} {extension : Text} {w : Workspace} {base : Path} {route : List Path}
  {chain : List Location} {n : Node} {ns : List Node}

theorem Placed.Imports.unique {p : Placed} {path path' : Path} {l l' : Location}
    {source source' : Text} (h : p.Imports extension w path l source)
    (h' : p.Imports extension w path' l' source') : path = path' ∧ l = l' ∧ source = source' := by
  obtain rfl := Reference.document.inj (h.reference.symm.trans h'.reference)
  obtain rfl := Except.ok.inj (h.location.symm.trans h'.location)
  exact ⟨rfl, rfl, Except.ok.inj (h.text.symm.trans h'.text)⟩

namespace Placed.Imports

variable {path : Path} {l : Location} {source : Text}

theorem role {n : Node} (h : Placed.Imports extension w ⟨route, base, n⟩ path l source) :
    Import.role extension w base n = .document path l :=
  role_eq_document_iff.2 ⟨h.kind, h.reference, h.location⟩

/-- Such an import is no reason for a warning. -/
theorem warning?_eq_none {p : Placed} (h : p.Imports extension w path l source) :
    p.warning? extension w = none := by
  unfold Placed.warning?
  rw [if_pos h.kind, h.reference]
  dsimp only
  rw [h.location]
  dsimp only
  rw [h.text]

theorem leaves_eq_nil {p : Placed} (h : p.Imports extension w path l source) :
    p.leaves extension = [] := by
  have hkinds : Kind.importKind ≠ Kind.importable := by decide
  unfold Placed.leaves
  rw [h.kind, if_neg hkinds, if_pos rfl, h.reference]
  rfl

end Placed.Imports

/-- Nodes are met in one way. -/
theorem Meets.unique {ms ms' : List Placed} (h : Meets r extension w base route ns ms)
    (h' : Meets r extension w base route ns ms') : ms = ms' := by
  induction h generalizing ms' with
  | nil =>
    cases h'
    rfl
  | alone hnot _ ih =>
    cases h' with
    | alone _ hrest => rw [ih hrest]
    | document himports _ _ => exact absurd himports (hnot _ _ _)
  | document himports _ _ ihinner ih =>
    cases h' with
    | alone hnot _ => exact absurd himports (hnot _ _ _)
    | document himports' hinner hrest =>
      obtain ⟨rfl, rfl, rfl⟩ := himports.unique himports'
      rw [ihinner hinner, ih hrest]

section Piece

variable {xs : List Node} (h : piece r extension w base (within route) chain n = .ok xs)
include h

/-- A node that brings in no document gives its warning, and what is left of it. -/
theorem piece_alone
    (halone : ∀ path l source, ¬ Placed.Imports extension w ⟨route, base, n⟩ path l source) :
    pieceLog r extension w base (within route) chain n =
        (Placed.warning? extension w ⟨route, base, n⟩).toList ∧
      xs = Placed.leaves extension ⟨route, base, n⟩ := by
  have hkinds : Kind.importable ≠ Kind.importKind := by decide
  unfold piece role at h
  unfold pieceLog role Placed.warning? Placed.leaves
  by_cases hf : n.kind = Kind.importable
  · have hi : n.kind ≠ Kind.importKind := fun hi => hkinds (hf.symm.trans hi)
    simp only [hf, if_true] at h
    simp only [hf, hkinds, if_true, if_false]
    exact ⟨rfl, (Except.ok.inj h).symm⟩
  · by_cases hi : n.kind = Kind.importKind
    · simp only [hi, Ne.symm hkinds, if_true, if_false] at h ⊢
      cases hc : classify (reference n) extension with
      | stylesheet =>
        simp only [hc] at h
        exact ⟨rfl, (Except.ok.inj h).symm⟩
      | unsupported =>
        simp only [hc] at h
        exact ⟨rfl, (Except.ok.inj h).symm⟩
      | document path =>
        simp only [hc] at h ⊢
        cases hl : w.resolve (base.join path) with
        | error fault =>
          simp only [hl] at h
          exact ⟨rfl, (Except.ok.inj h).symm⟩
        | ok l =>
          simp only [hl] at h ⊢
          by_cases hm : l ∈ chain
          · rw [if_pos hm] at h
            cases h
          · rw [if_neg hm] at h ⊢
            cases hs : w.readAt l with
            | error fault =>
              simp only [hs] at h
              exact ⟨rfl, (Except.ok.inj h).symm⟩
            | ok source => exact absurd ⟨hi, hc, hl, hs⟩ (halone path l source)
    · simp only [hf, hi, if_false] at h ⊢
      exact ⟨rfl, (Except.ok.inj h).symm⟩

/-- An import that brings in a document gives what the document gives. -/
theorem piece_imports (hr : r.Standard) {path : Path} {l : Location} {source : Text}
    (himports : Placed.Imports extension w ⟨route, base, n⟩ path l source) :
    l ∉ chain ∧
      expand r extension w (Workspace.pathOf l.dropLast) (within (route ++ [path])) (chain ++ [l])
        (nodesOf r source).value =
          ⟨.ok xs, pieceLog r extension w base (within route) chain n⟩ := by
  have hrole := himports.role
  have hl : l ∉ chain := fun hl => by cases (piece_cycle hrole hl).symm.trans h
  rw [piece_document hrole hl himports.text, ← within_append] at h
  have hlog : pieceLog r extension w base (within route) chain n =
      (expand r extension w (Workspace.pathOf l.dropLast) (within (route ++ [path])) (chain ++ [l])
        (nodesOf r source).value).log := by
    unfold pieceLog
    rw [hrole]
    dsimp only
    rw [if_neg hl, himports.text]
    dsimp only
    rw [nodesOf_log hr, List.nil_append, within_append]
  rw [hlog, ← h]
  exact ⟨hl, rfl⟩

end Piece

variable (r extension w) in
/-- If a node imports a document that can be read, the nodes that come right after it are those of
that document, whose expansion is what they leave and says what is said of them. -/
def Followed (chain : List Location) (p : Placed) (after : List Placed) : Prop :=
  ∀ path l source, p.Imports extension w path l source → ∃ inner rest above,
    after = inner ++ rest ∧
    Meets r extension w (Workspace.pathOf l.dropLast) (p.route ++ [path]) (nodesOf r source).value
      inner ∧
    expand r extension w (Workspace.pathOf l.dropLast) (within (p.route ++ [path]))
        (chain ++ above ++ [l]) (nodesOf r source).value =
      ⟨.ok (inner.flatMap (Placed.leaves extension)), inner.filterMap (Placed.warning? extension w)⟩

variable (r extension w) in
/-- All nodes are followed by those that they bring in. -/
def Nested (chain : List Location) (ms : List Placed) : Prop :=
  ∀ before p after, ms = before ++ p :: after → Followed r extension w chain p after

variable {p : Placed} {ms ms' : List Placed}

theorem Followed.append (h : Followed r extension w chain p ms) (ms' : List Placed) :
    Followed r extension w chain p (ms ++ ms') := by
  intro path l source himports
  obtain ⟨inner, rest, above, rfl, hmeets, hexpand⟩ := h path l source himports
  exact ⟨inner, rest ++ ms', above, List.append_assoc .., hmeets, hexpand⟩

theorem Followed.inside {l : Location} (h : Followed r extension w (chain ++ [l]) p ms) :
    Followed r extension w chain p ms := by
  intro path l' source himports
  obtain ⟨inner, rest, above, hafter, hmeets, hexpand⟩ := h path l' source himports
  exact ⟨inner, rest, l :: above, hafter, hmeets, by rwa [List.append_assoc chain] at hexpand⟩

theorem nested_nil : Nested r extension w chain [] := by
  intro before p after hsplit
  cases before <;> cases hsplit

theorem Nested.cons (h : Nested r extension w chain ms) (hp : Followed r extension w chain p ms) :
    Nested r extension w chain (p :: ms) := by
  intro before q after hsplit
  cases before with
  | nil =>
    obtain ⟨rfl, rfl⟩ := List.cons.inj hsplit
    exact hp
  | cons q' before => exact h before q after (List.cons.inj hsplit).2

theorem Nested.append (h : Nested r extension w chain ms) (h' : Nested r extension w chain ms') :
    Nested r extension w chain (ms ++ ms') := by
  intro before p after hsplit
  rcases List.append_eq_append_iff.1 hsplit with ⟨more, rfl, hmore⟩ | ⟨more, hmore, hrest⟩
  · exact h' more p after hmore
  · cases more with
    | nil => exact h' [] p after hrest.symm
    | cons q more =>
      obtain ⟨rfl, rfl⟩ := List.cons.inj hrest
      exact (h before p more hmore).append ms'

variable (route) in
/-- A successful expansion is told by the nodes that are met. -/
theorem expand_met (hr : r.Standard) {out : List Node}
    (h : (expand r extension w base (within route) chain ns).value = .ok out) :
    ∃ ms, Meets r extension w base route ns ms ∧
      expand r extension w base (within route) chain ns =
        ⟨.ok (ms.flatMap (Placed.leaves extension)),
          ms.filterMap (Placed.warning? extension w)⟩ ∧
      Nested r extension w chain ms := by
  suffices hall : ∀ base inside chain ns, ∀ route, inside = within route → ∀ out,
      (expand r extension w base inside chain ns).value = .ok out →
        ∃ ms, Meets r extension w base route ns ms ∧
          expand r extension w base inside chain ns =
            ⟨.ok (ms.flatMap (Placed.leaves extension)),
              ms.filterMap (Placed.warning? extension w)⟩ ∧
          Nested r extension w chain ms from
    hall base (within route) chain ns route rfl out h
  -- the route grows with every import, and the chain with it
  refine expand_induction r extension w ?_ ?_
  · intro base inside chain route _ out _
    exact ⟨[], .nil, by rw [expand]; rfl, nested_nil⟩
  · rintro base _ chain n ns ihdoc ihrest route rfl out h
    obtain ⟨xs, ys, hpiece, hrest, -⟩ := expand_cons_ok_iff.1 h
    obtain ⟨ms, hms, hexpand, hnested⟩ := ihrest route rfl ys hrest
    rw [expand_cons_logged, hpiece, hexpand]
    dsimp only
    by_cases halone :
        ∀ path l source, ¬ Placed.Imports extension w ⟨route, base, n⟩ path l source
    · obtain ⟨hlog, rfl⟩ := piece_alone hpiece halone
      have hfollowed : Followed r extension w chain ⟨route, base, n⟩ ms :=
        fun path l source himports => absurd himports (halone path l source)
      refine ⟨_, .alone halone hms, ?_, hnested.cons hfollowed⟩
      rw [hlog, List.filterMap_cons]
      cases Placed.warning? extension w ⟨route, base, n⟩ <;> rfl
    · push Not at halone
      obtain ⟨path, l, source, himports⟩ := halone
      obtain ⟨hl, hdocument⟩ := piece_imports hpiece hr himports
      obtain ⟨inner, hinner, hinnerExpand, hinnerNested⟩ :=
        ihdoc path l source himports.role hl himports.text (route ++ [path])
          (within_append route path).symm xs (by rw [← within_append, hdocument])
      rw [← within_append] at hinnerExpand
      obtain ⟨hxs, hlog⟩ := Logged.mk.inj (hdocument.symm.trans hinnerExpand)
      have hfollowed : Followed r extension w chain ⟨route, base, n⟩ (inner ++ ms) := by
        intro path' l' source' himports'
        obtain ⟨rfl, rfl, rfl⟩ := himports.unique himports'
        exact ⟨inner, ms, [], rfl, hinner, by rw [List.append_nil]; exact hinnerExpand⟩
      have hinside : Nested r extension w chain inner := fun before p after hsplit =>
        (hinnerNested before p after hsplit).inside
      refine ⟨_, .document himports hinner hms, ?_, (hinside.append hnested).cons hfollowed⟩
      rw [hlog, Except.ok.inj hxs, List.filterMap_cons_none himports.warning?_eq_none,
        List.flatMap_cons, himports.leaves_eq_nil, List.filterMap_append, List.flatMap_append]
      rfl

/-- An expansion that succeeds meets certain nodes in the order of the documents. Its warnings are one
for each import among these that is not supported, not found or not readable as text, and its result
is what the nodes leave: of the import of a stylesheet one node, of an import or a flag nothing, and
all else unchanged. Whatever document is imported, at any depth, comes right after its import and is
expanded to what its own nodes leave. -/
theorem resolve_accounts (r : Registry) (hr : r.Standard) (extension : Text) (w : Workspace)
    (base : Path) (chain : List Location) (ns out : List Node)
    (h : (resolve r extension w base chain ns).value = .ok out) :
    ∃ ms, Meets r extension w base [] ns ms ∧
      (resolve r extension w base chain ns).log = ms.filterMap (Placed.warning? extension w) ∧
      out = ms.flatMap (Placed.leaves extension) ∧ Nested r extension w chain ms := by
  obtain ⟨ms, hms, hexpand, hnested⟩ := expand_met [] hr h
  have hresolve : resolve r extension w base chain ns = _ := hexpand
  rw [hresolve] at h ⊢
  exact ⟨ms, hms, rfl, (Except.ok.inj h).symm, hnested⟩

/-- A document whose only node imports a file that is no text. -/
def torn : Workspace where
  tree := {
    entries := [(["part.sphst".toList], .file (.text "import bad".toList)),
      (["bad.sphst".toList], .file (.bytes [255]))]
    nodup := by decide
    named := by decide
    closed := by decide }
  home := []

/-- Nodes that import that document twice, and what is not there or not supported. -/
def tornNodes : List Node :=
  [.scalar Kind.importKind "a.txt".toList, .scalar Kind.importKind "part".toList,
    .scalar Kind.text "Hi".toList, .scalar Kind.importKind "missing".toList,
    .scalar Kind.importKind "part".toList]

theorem nodesOf_torn : (nodesOf Registry.builtin "import bad".toList).value =
    [.scalar Kind.importKind "bad".toList] :=
  nodesOf_importLine Registry.builtin (by decide) (by decide) (by decide)

theorem role_part : role "sphst".toList torn ⟨['.']⟩ (.scalar Kind.importKind "part".toList) =
    .document ⟨"part.sphst".toList⟩ ["part.sphst".toList] :=
  role_eq_document_iff.2 ⟨rfl, by decide, by decide⟩

theorem role_bad : role "sphst".toList torn (Workspace.pathOf ["part.sphst".toList].dropLast)
    (.scalar Kind.importKind "bad".toList) = .document ⟨"bad.sphst".toList⟩ ["bad.sphst".toList] :=
  role_eq_document_iff.2 ⟨rfl, by decide, by decide⟩

theorem resolve_torn :
    (resolve Registry.builtin "sphst".toList torn ⟨['.']⟩ [] tornNodes).value =
      .ok [.scalar Kind.text "Hi".toList] := by
  have hread : torn.readAt ["part.sphst".toList] = .ok "import bad".toList := by decide
  have hbad : torn.readAt ["bad.sphst".toList] = .error .notText := by decide
  have hpart : piece Registry.builtin "sphst".toList torn ⟨['.']⟩ .empty []
      (.scalar Kind.importKind "part".toList) = .ok [] := by
    rw [piece_document role_part (by simp) hread, nodesOf_torn,
      expand_cons_of_ok (piece_unreadable role_bad (by decide) hbad), expand_nil]
    rfl
  have hunsupported : role "sphst".toList torn ⟨['.']⟩ (.scalar Kind.importKind "a.txt".toList) =
      .dropped [.unsupportedImport "a.txt".toList] := by rfl
  have hmissing : role "sphst".toList torn ⟨['.']⟩ (.scalar Kind.importKind "missing".toList) =
      .dropped [.importNotFound ⟨"./missing.sphst".toList⟩ .notFound] := by rfl
  have htext : role "sphst".toList torn ⟨['.']⟩ (.scalar Kind.text "Hi".toList) = .kept := by rfl
  unfold resolve tornNodes
  rw [expand_cons_of_ok (piece_dropped hunsupported), expand_cons_of_ok hpart,
    expand_cons_of_ok (piece_kept htext), expand_cons_of_ok (piece_dropped hmissing),
    expand_cons_of_ok hpart, expand_nil]
  rfl

theorem meets_torn : Meets Registry.builtin "sphst".toList torn ⟨['.']⟩ [] tornNodes
    [⟨[], ⟨['.']⟩, .scalar Kind.importKind "a.txt".toList⟩,
      ⟨[], ⟨['.']⟩, .scalar Kind.importKind "part".toList⟩,
      ⟨[⟨"part.sphst".toList⟩], ⟨['/']⟩, .scalar Kind.importKind "bad".toList⟩,
      ⟨[], ⟨['.']⟩, .scalar Kind.text "Hi".toList⟩,
      ⟨[], ⟨['.']⟩, .scalar Kind.importKind "missing".toList⟩,
      ⟨[], ⟨['.']⟩, .scalar Kind.importKind "part".toList⟩,
      ⟨[⟨"part.sphst".toList⟩], ⟨['/']⟩, .scalar Kind.importKind "bad".toList⟩] := by
  have himports : Placed.Imports "sphst".toList torn
      ⟨[], ⟨['.']⟩, .scalar Kind.importKind "part".toList⟩ ⟨"part.sphst".toList⟩
      ["part.sphst".toList] "import bad".toList := ⟨rfl, by decide, by decide, by decide⟩
  have hbad : ∀ path l source, ¬ Placed.Imports "sphst".toList torn
      ⟨[⟨"part.sphst".toList⟩], ⟨['/']⟩, .scalar Kind.importKind "bad".toList⟩ path l source := by
    rintro path l source ⟨-, hpath, hl, hs⟩
    obtain rfl : ⟨"bad.sphst".toList⟩ = path := Reference.document.inj hpath
    have hat : torn.resolve (Path.join ⟨['/']⟩ ⟨"bad.sphst".toList⟩) = .ok ["bad.sphst".toList] := by
      decide
    obtain rfl := Except.ok.inj (hat.symm.trans hl)
    cases hs
  have hinner : Meets Registry.builtin "sphst".toList torn
      (Workspace.pathOf ["part.sphst".toList].dropLast) ([] ++ [⟨"part.sphst".toList⟩])
      (nodesOf Registry.builtin "import bad".toList).value
      [⟨[⟨"part.sphst".toList⟩], ⟨['/']⟩, .scalar Kind.importKind "bad".toList⟩] := by
    rw [nodesOf_torn]
    exact .alone hbad .nil
  refine .alone ?_ (.document himports hinner (.alone ?_ (.alone ?_ (.document himports hinner .nil))))
  · rintro path l source ⟨-, hpath, -, -⟩
    cases hpath
  · rintro path l source ⟨hkind, -, -, -⟩
    exact absurd hkind (by decide)
  · rintro path l source ⟨-, hpath, hl, -⟩
    obtain rfl : ⟨"missing.sphst".toList⟩ = path := Reference.document.inj hpath
    cases hl

theorem resolve_accounts_torn : Registry.builtin.Standard ∧
    (resolve Registry.builtin "sphst".toList torn ⟨['.']⟩ [] tornNodes).value =
      .ok [.scalar Kind.text "Hi".toList] ∧
    (resolve Registry.builtin "sphst".toList torn ⟨['.']⟩ [] tornNodes).log =
      [.unsupportedImport "a.txt".toList, .importUnreadable ⟨"/bad.sphst".toList⟩ .notText,
        .importNotFound ⟨"./missing.sphst".toList⟩ .notFound,
        .importUnreadable ⟨"/bad.sphst".toList⟩ .notText] := by
  obtain ⟨ms, hms, hlog, -, -⟩ := resolve_accounts Registry.builtin Registry.builtin_standard
    "sphst".toList torn ⟨['.']⟩ [] tornNodes _ resolve_torn
  obtain rfl := hms.unique meets_torn
  refine ⟨Registry.builtin_standard, resolve_torn, hlog.trans ?_⟩
  decide

end Folio.Import
