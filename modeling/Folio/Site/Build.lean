import Folio.Document.Compiler
import Folio.Site.Scan

namespace Folio

/-- What became of a document. -/
inductive BuildEvent
  | written (source output : Path) (title : Option Text)
  /-- The document is meant for import only. -/
  | skipped (source : Path)
  | failed (source : Path) (error : Text)
deriving DecidableEq, Repr

/-- The events of a build, in the order of its documents. -/
structure BuildReport where
  outputDirectory : Path
  events : List BuildEvent
deriving DecidableEq, Repr

namespace BuildReport

def written (r : BuildReport) : Nat := r.events.countP fun
  | .written .. => true
  | _ => false

def skipped (r : BuildReport) : Nat := r.events.countP fun
  | .skipped _ => true
  | _ => false

def failed (r : BuildReport) : Nat := r.events.countP fun
  | .failed .. => true
  | _ => false

end BuildReport

/-- Why nothing is built. -/
inductive BuildFault
  | files (fault : FileFault)
  | scan (fault : ScanFault)
deriving DecidableEq, Repr

def BuildFault.message : BuildFault → Text
  | files fault => "IO error: ".toList ++ fault.message
  | scan fault => "Scan error: ".toList ++ fault.message

namespace Build

def pageExtension : Text := "html".toList

/-- Where the page of a document is written. -/
def outputPath (output relative : Path) : Path := output.join (relative.withExtension pageExtension)

/-- Write a page and make the directories for it; what was made before a fault stays. -/
def writePage (w : Workspace) (path : Path) (html : Text) : Workspace × Option FileFault :=
  let (w, fault) := match path.parent? with
    | some parent => w.makeDirectories parent
    | none => (w, none)
  match fault with
  | some fault => (w, some fault)
  | none => match w.write path (.text html) with
    | .ok w => (w, none)
    | .error fault => (w, some fault)

/-- Build one document. -/
def one (c : Compiler) (output : Path) (w : Workspace) (d : SourceDocument) :
    Logged (Workspace × BuildEvent) :=
  let failed (w : Workspace) (error : Text) : Logged (Workspace × BuildEvent) :=
    .warn (.documentFailed d.path error) (w, .failed d.relative error)
  (c.compileFile w d.path).bind fun
    | .error fault => failed w fault.message
    | .ok page =>
      if page.importable then .pure (w, .skipped d.relative)
      else
        let path := outputPath output d.relative
        match writePage w path page.html with
        | (w, some fault) =>
          failed w ("failed to write ".toList ++ path.text ++ ": ".toList ++ fault.message)
        | (w, none) =>
          .pure (w, .written d.relative (d.relative.withExtension pageExtension) page.title)

/-- Build documents one after another. -/
def all (c : Compiler) (output : Path) (w : Workspace) :
    List SourceDocument → Logged (Workspace × List BuildEvent)
  | [] => .pure (w, [])
  | d :: ds => (one c output w d).bind fun (w, e) =>
    (all c output w ds).bind fun (w, es) => .pure (w, e :: es)

/-- Build every document under a file or directory. -/
def run (c : Compiler) (w : Workspace) (input output : Path) (skipped : List Text) :
    Logged (Workspace × Except BuildFault BuildReport) :=
  match Scan.run w input c.extension skipped with
  | .error fault => .pure (w, .error (.scan fault))
  | .ok scan => match w.makeDirectories output with
    | (w, some fault) => .pure (w, .error (.files fault))
    | (w, none) => (all c output w scan.documents).bind fun (w, events) =>
      .pure (w, .ok ⟨output, events⟩)

end Build
end Folio
