import Folio.Command.Run

/-! The command line over the files of the system: the files around the current directory and the
given paths are read, the command runs on them, and what it added is written. -/
namespace Folio.Main

def namesOf (path : String) : Location :=
  (Text.splitOn '/' path.toList).filter fun n => !n.isEmpty

def putEntry (w : Workspace) (l : Location) (e : Entry) : Workspace :=
  if h : w.tree.Admits l e then { w with tree := w.tree.put l e h } else w

/-- The directories on the way to a location. -/
def putAncestors (w : Workspace) (l : Location) : Workspace :=
  (List.range (l.length + 1)).foldl (fun w n => putEntry w (l.take n) .directory) w

/-- The entries of a directory and all below them; links and special files are left out. -/
partial def load (w : Workspace) (entries : Array IO.FS.DirEntry) : IO Workspace := do
  let mut w := w
  for entry in entries do
    let l := namesOf entry.path.toString
    match (← entry.path.symlinkMetadata).type with
    | .dir => w ← load (putEntry w l .directory) (← entry.path.readDir)
    | .file =>
      let bytes ← IO.FS.readBinFile entry.path
      w := putEntry w l (.file (Content.ofBytes bytes.toList))
    | _ => pure ()
  return w

/-- The directory of a path that lies elsewhere than in the current one. -/
def loadElsewhere (w : Workspace) (word : String) : IO Workspace := do
  let path ← IO.FS.realPath word
  unless ← path.pathExists do
    return w
  let l := namesOf path.toString
  if w.home.isPrefixOf l then
    return w
  if ← path.isDir then
    load (putAncestors w l) (← path.readDir)
  else match path.parent with
    | some parent => load (putAncestors w l.dropLast) (← parent.readDir)
    | none => return w

def pathText (l : Location) : String := String.ofList (Workspace.pathOf l).text

/-- Write what is in a tree and was not there before. -/
def store (before after : FileTree) : IO Unit := do
  for (l, e) in after.entries.reverse do
    if before.lookup l ≠ some e then
      match e with
      | .directory => IO.FS.createDirAll (pathText l)
      | .file (.text t) => IO.FS.writeFile (pathText l) (String.ofList t)
      | .file (.bytes b) => IO.FS.writeBinFile (pathText l) ⟨b.toArray⟩

def warningLine (w : Warning) : Text :=
  "WARN ".toList ++ w.message ++ w.fields.flatMap fun (name, value) =>
    ' ' :: name ++ '=' :: Text.quoted value

end Folio.Main

open Folio in
/-- Run the command line. -/
def main (args : List String) : IO UInt32 := do
  let home ← IO.currentDir
  let location := Main.namesOf home.toString
  let start := Main.putAncestors ⟨FileTree.empty, location⟩ location
  let mut w ← Main.load start (← home.readDir)
  for arg in args do
    unless arg.startsWith "-" do
      w ← Main.loadElsewhere w arg <|> pure w
  let done := Command.run w (args.map String.toList)
  Main.store w.tree done.value.workspace.tree
  for warning in done.log do
    IO.eprintln (String.ofList (Main.warningLine warning))
  for line in done.value.progress do
    IO.println (String.ofList line)
  IO.print (String.ofList done.value.output)
  if let some fault := done.value.fault then
    IO.eprintln ("Error: " ++ String.ofList fault.message)
  return UInt32.ofNat done.value.code
