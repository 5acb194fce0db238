import Folio.Document.Fault

namespace Folio

/-- A document by the path to read it, and by its path from where the search began. -/
structure SourceDocument where
  path : Path
  relative : Path
deriving DecidableEq, Repr

structure Scan where
  root : Path
  documents : List SourceDocument
deriving DecidableEq, Repr

/-- Why no documents are found. Reading a directory and walking a tree have faults of their own, but
not here: in a tree without links or permissions every directory that a scan comes to can be listed,
so that the walk cannot fail. -/
inductive ScanFault
  | notFound (path : Path)
deriving DecidableEq, Repr

def ScanFault.message : ScanFault → Text
  | notFound path => "No such file or directory: ".toList ++ path.text

namespace Scan

/-- The names that lead from a location to each file below it; the entries of a directory come in
order, and what is in a directory that is skipped is left out. -/
def filesBelow (t : FileTree) (isSkipped : Text → Bool) : (depth : Nat) → Location → List Location
  | 0, _ => []
  | n + 1, l => (t.children l).flatMap fun name =>
    match t.lookup (l ++ [name]) with
    | some .directory =>
      if isSkipped name then []
      else (filesBelow t isSkipped n (l ++ [name])).map (name :: ·)
    | some (.file _) => [[name]]
    | none => []

/-- Locations are ordered name by name, the shorter of two with a common start first. -/
def locationLe : Location → Location → Bool
  | [], _ => true
  | _ :: _, [] => false
  | a :: as, b :: bs => if a = b then locationLe as bs else Text.le a b

def document (input : Path) (names : Location) : SourceDocument :=
  ⟨input.join (.ofNames names), .ofNames names⟩

/-- The directory of a file; a bare name lies in the current one. -/
def directoryOf (p : Path) : Path :=
  match p.parent? with
  | some q => if q.isEmpty then .ofString "." else q
  | none => .ofString "."

def ofDirectory (w : Workspace) (input : Path) (l : Location) (extension : Text)
    (skipped : List Text) : List SourceDocument :=
  let files := filesBelow w.tree (fun name => skipped.contains name) (w.tree.depth + 1) l
  ((files.filter fun names => (Path.ofNames names).hasExtension extension).mergeSort
    locationLe).map (document input)

/-- Find the documents under a file or directory. -/
def run (w : Workspace) (input : Path) (extension : Text) (skipped : List Text) :
    Except ScanFault Scan :=
  match w.resolve input with
  | .error _ => .error (.notFound input)
  | .ok l =>
    if w.tree.isDirectory l then .ok ⟨input, ofDirectory w input l extension skipped⟩
    else match input.fileName? with
      | none => .error (.notFound input)
      | some name => .ok ⟨directoryOf input, [⟨input, ⟨name⟩⟩]⟩

end Scan
end Folio
