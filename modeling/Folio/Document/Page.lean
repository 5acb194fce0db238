import Folio.Document.Script

namespace Folio

/-- What stands in the frame of every page. -/
structure PageSettings where
  lang : Text
  charset : Text
  viewport : Text
deriving DecidableEq, Repr

def PageSettings.standard : PageSettings :=
  ⟨"en".toList, "utf-8".toList, "width=device-width, initial-scale=1".toList⟩

/-- What the nodes of a document say about its page as a whole. -/
structure Summary where
  hasFrame : Bool
  hasMetatags : Bool
  title : Option Text
  /-- Links to stylesheets. -/
  links : List Text
  frontmatter : Frontmatter
  bindings : Variables
deriving DecidableEq, Repr

namespace Summary

def empty : Summary := ⟨false, false, none, [], [], []⟩

/-- Take note of one node. -/
def note (s : Summary) (n : Node) : Logged Summary :=
  if n.kind = Kind.html5 then .pure { s with hasFrame := true }
  else if n.kind = Kind.metatags then .pure { s with hasMetatags := true }
  else if n.kind = Kind.title then .pure { s with title := s.title.or n.text? }
  else if n.kind = Kind.importKind then
    match n.text? with
    | some href =>
      .pure (if Import.isStylesheet href then { s with links := s.links ++ [stylesheetLink href] }
        else s)
    | none => .pure s
  else if n.kind = Kind.frontmatter then
    match Frontmatter.parse (n.text?.getD []) with
    | .ok f => .pure { s with frontmatter := s.frontmatter.union f }
    | .error e => .warn (.malformedFrontmatter e) s
  else if n.kind = Kind.variableKind then
    match n.childText? Kind.variableName with
    | some name =>
      let value := (n.childText? Kind.variableValue).getD []
      .pure { s with bindings := Json.insertMember name value s.bindings }
    | none => .pure s
  else .pure s

def noteAll (s : Summary) : List Node → Logged Summary
  | [] => .pure s
  | n :: ns => (s.note n).bind fun s => noteAll s ns

def ofNodes (ns : List Node) : Logged Summary := noteAll empty ns

/-- The first title of the document, or else the one in its metadata. -/
def pageTitle? (s : Summary) : Option Text := s.title.or s.frontmatter.title?

end Summary

structure Rendered where
  html : Text
  title : Option Text
  frontmatter : Frontmatter
deriving DecidableEq, Repr

/-- What all nodes of a document are rendered with. -/
structure Renderer where
  registry : Registry
  host : Script.Host
  page : PageSettings
  workspace : Workspace
  base : Path
  extension : Text

namespace Renderer

/-- Nodes that show nothing where they stand. -/
def silentKinds : List Text :=
  [Kind.html5, Kind.metatags, Kind.importable, Kind.importKind, Kind.variableKind,
    Kind.frontmatter]

/-- Markup stands for itself, and prose becomes a paragraph. -/
def scalarMarkup (t : Text) : Text :=
  if t.head? = some '<' then t else Html.element ['p'] [] t

def view (r : Renderer) (s : Summary) : Script.View :=
  ⟨r.workspace, r.base, r.extension, s.frontmatter, s.bindings⟩

/-- Append what a node shows. -/
def emit (r : Renderer) (s : Summary) (b : Script.Buffers) (n : Node) : Logged Script.Buffers :=
  if n.kind ∈ silentKinds then .pure b
  else if n.kind = Kind.script then
    (r.host.run (r.view s) (n.text?.getD []) b).bind fun done =>
      match done.fault with
      | some fault => .warn (.scriptFailed fault r.base) done.buffers
      | none => .pure done.buffers
  else match r.registry.render? n with
    | some markup => .pure (b.pushBody markup)
    | none => match n.text? with
      | some t => .pure (b.pushBody (scalarMarkup t))
      | none => .pure b

def emitAll (r : Renderer) (s : Summary) (b : Script.Buffers) : List Node → Logged Script.Buffers
  | [] => .pure b
  | n :: ns => (r.emit s b n).bind fun b => emitAll r s b ns

def bodyText (b : Script.Buffers) : Text := Text.joinWith ['\n'] b.body

def metatags (r : Renderer) (s : Summary) : Text :=
  let tag (attributes : List (Text × Text)) : Text := Html.startTag "meta".toList attributes
  let described (name content : Text) : Text :=
    tag [("name".toList, name), ("content".toList, content)]
  tag [("charset".toList, r.page.charset)] ++ described "viewport".toList r.page.viewport
    ++ (s.pageTitle?.map (Html.element "title".toList [])).getD []
    ++ (s.frontmatter.description?.map (described "description".toList)).getD []

/-- The body within a whole HTML document. -/
def frame (r : Renderer) (s : Summary) (b : Script.Buffers) : Text :=
  "<!DOCTYPE html>".toList ++ Html.element "html".toList [("lang".toList, r.page.lang)]
    (Html.element "head".toList [] ((if s.hasMetatags then r.metatags s else []) ++ b.head.flatten)
      ++ Html.element "body".toList [] (bodyText b))

def render (r : Renderer) (ns : List Node) : Logged Rendered :=
  (Summary.ofNodes ns).bind fun s =>
    (r.emitAll s ⟨s.links, []⟩ ns).bind fun b =>
      .pure ⟨if s.hasFrame then r.frame s b else bodyText b, s.pageTitle?, s.frontmatter⟩

end Renderer
end Folio
