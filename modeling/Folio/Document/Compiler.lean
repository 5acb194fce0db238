import Folio.Document.Page

namespace Folio

structure Page where
  html : Text
  title : Option Text
  /-- The document is meant for import and gets no page of its own. -/
  importable : Bool
  frontmatter : Frontmatter
deriving DecidableEq, Repr

structure Compiler where
  registry : Registry
  host : Script.Host
  page : PageSettings
  extension : Text

namespace Compiler

/-- Compile the text of a document in a directory, with the chain of documents around it. -/
def compileWithin (c : Compiler) (w : Workspace) (base : Path) (chain : List Location)
    (source : Text) : Logged (Except CompileFault Page) :=
  (nodesOf c.registry source).bind fun nodes =>
    (Import.resolve c.registry c.extension w base chain nodes).bind fun
      | .error fault => .pure (.error fault)
      | .ok resolved =>
        let r : Renderer := ⟨c.registry, c.host, c.page, w, base, c.extension⟩
        (r.render resolved).bind fun done =>
          .pure (.ok ⟨done.html, done.title, nodes.any fun n => n.kind = Kind.importable,
            done.frontmatter⟩)

def compile (c : Compiler) (w : Workspace) (base : Path) (source : Text) :
    Logged (Except CompileFault Page) := c.compileWithin w base [] source

/-- Compile a file; its own location starts the chain. -/
def compileFile (c : Compiler) (w : Workspace) (path : Path) : Logged (Except CompileFault Page) :=
  match w.resolve path with
  | .error fault => .pure (.error (.unreadable path fault))
  | .ok l => match w.readAt l with
    | .error fault => .pure (.error (.unreadable path fault))
    | .ok source => c.compileWithin w (Workspace.pathOf l.dropLast) [l] source

end Compiler
end Folio
