import Folio.Files.FileTree
import Folio.Files.Path

namespace Folio

/-- Why an operation on files fails. -/
inductive FileFault
  | notFound
  | exists
  | notDirectory
  | isDirectory
  | notText
  | nameTooLong
  | nulInName
deriving DecidableEq, Repr

def FileFault.message : FileFault → Text
  | notFound => "No such file or directory (os error 2)".toList
  | «exists» => "File exists (os error 17)".toList
  | notDirectory => "Not a directory (os error 20)".toList
  | isDirectory => "Is a directory (os error 21)".toList
  | nameTooLong => "File name too long (os error 36)".toList
  | notText => "stream did not contain valid UTF-8".toList
  | nulInName => "file name contained an unexpected NUL byte".toList

/-- Files as paths reach them. A relative path is read from the home directory. -/
structure Workspace where
  tree : FileTree
  home : Location
deriving Inhabited

namespace Workspace

/-- Follow the segments of a path from a location. -/
def walk (w : Workspace) (l : Location) : List Text → Except FileFault Location
  | [] => .ok l
  | s :: ss =>
    if w.tree.lookup l ≠ some .directory then .error .notDirectory
    else if Path.isFiller s then walk w l ss
    else if s = ['.', '.'] then walk w l.dropLast ss
    else if maxNameSize < Text.byteSize s then .error .nameTooLong
    else match w.tree.lookup (l ++ [s]) with
      | none => .error .notFound
      | some _ => walk w (l ++ [s]) ss

def start (w : Workspace) (p : Path) : Location := if p.isAbsolute then [] else w.home

/-- The location that a path leads to. -/
def resolve (w : Workspace) (p : Path) : Except FileFault Location :=
  if p.isEmpty then .error .notFound
  else if p.text.contains (Char.ofNat 0) then .error .nulInName
  else w.walk (w.start p) p.segments

/-- The path of a location from the root. -/
def pathOf (l : Location) : Path := ⟨'/' :: Text.joinWith ['/'] l⟩

def entry? (w : Workspace) (p : Path) : Option Entry :=
  match w.resolve p with
  | .ok l => w.tree.lookup l
  | .error _ => none

def isFile (w : Workspace) (p : Path) : Bool := (w.entry? p).any Entry.isFile

def isDirectory (w : Workspace) (p : Path) : Bool := (w.entry? p).any Entry.isDirectory

/-- The text of the file at a location. -/
def readAt (w : Workspace) (l : Location) : Except FileFault Text :=
  match w.tree.lookup l with
  | none => .error .notFound
  | some .directory => .error .isDirectory
  | some (.file (.bytes _)) => .error .notText
  | some (.file (.text t)) => .ok t

def read (w : Workspace) (p : Path) : Except FileFault Text :=
  match w.resolve p with
  | .error e => .error e
  | .ok l => w.readAt l

/-- Where the last segment of a path leads within the directory before it; none if it is no name. -/
def target (w : Workspace) (p : Path) (segments : List Text) :
    Except FileFault (Option Location) :=
  if p.isEmpty then .error .notFound
  else if p.text.contains (Char.ofNat 0) then .error .nulInName
  else match w.walk (w.start p) segments.dropLast with
    | .error e => .error e
    | .ok l =>
      if w.tree.lookup l ≠ some .directory then .error .notDirectory
      else match segments.getLast? with
        | none => .ok none
        | some s =>
          if Path.isFiller s || s = ['.', '.'] then .ok none
          else if maxNameSize < Text.byteSize s then .error .nameTooLong
          else .ok (some (l ++ [s]))

/-- Write a file, in the place of one that is there. -/
def write (w : Workspace) (p : Path) (c : Content) : Except FileFault Workspace :=
  match w.target p p.segments with
  | .error e => .error e
  | .ok none => .error .isDirectory
  | .ok (some l) =>
    if h : w.tree.Admits l (.file c) then .ok { w with tree := w.tree.put l (.file c) h }
    else .error .isDirectory

/-- Make one directory in a directory that is there. -/
def makeDirectory (w : Workspace) (p : Path) : Except FileFault Workspace :=
  let segments := (p.segments.reverse.dropWhile List.isEmpty).reverse
  match w.target p segments with
  | .error e => .error e
  | .ok none => .error .exists
  | .ok (some l) =>
    if h : w.tree.Admits l .directory then .ok { w with tree := w.tree.put l .directory h }
    else .error .exists

/-- Make a directory and those above it that are missing. What was made before a fault stays. -/
def makeDirectories (w : Workspace) (p : Path) : Workspace × Option FileFault :=
  let settle (w : Workspace) (r : Except FileFault Workspace) : Workspace × Option FileFault :=
    match r with
    | .ok w' => (w', none)
    | .error e => (w, if w.isDirectory p then none else some e)
  if p.isEmpty then (w, none)
  else match w.makeDirectory p with
    | .error .notFound => match hq : p.parent? with
      | none => (w, some .notFound)
      | some q =>
        have := Path.parent?_length hq
        match makeDirectories w q with
        | (w', some e) => (w', some e)
        | (w', none) => settle w' (w'.makeDirectory p)
    | r => settle w r
termination_by p.text.length

/-- Remove an entry and all below it. -/
def remove (w : Workspace) (p : Path) : Except FileFault Workspace :=
  match w.resolve p with
  | .error e => .error e
  | .ok l => .ok { w with tree := w.tree.erase l }

end Workspace
end Folio
