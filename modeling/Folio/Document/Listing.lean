import Folio.Document.Segment

namespace Folio

structure ListingEntry where
  name : Text
  path : Path
  isDirectory : Bool
  frontmatter : Frontmatter
  /-- The document is meant for import and has no page. -/
  importable : Bool
deriving Repr

namespace ListingEntry

def isDocument (e : ListingEntry) (extension : Text) : Bool :=
  !e.isDirectory && e.path.hasExtension extension

/-- The title in the metadata, or else the name without its extension. -/
def title (e : ListingEntry) : Text :=
  e.frontmatter.title?.getD (e.path.stem?.getD e.name)

end ListingEntry

namespace Listing

/-- The flag is a line of its own, not part of a paragraph or block. -/
def declaresImportable (source : Text) : Bool :=
  (tokenize Registry.builtin source).value.any fun t => t.kind = Kind.importable

def bare (directory : Path) (isDirectory : Bool) (name : Text) : ListingEntry :=
  ⟨name, directory.join ⟨name⟩, isDirectory, [], false⟩

/-- An entry of the directory at a location; a document that cannot be read has no metadata. -/
def entryAt (w : Workspace) (directory : Path) (l : Location) (extension name : Text) :
    Logged ListingEntry :=
  let e := bare directory (w.tree.isDirectory (l ++ [name])) name
  if e.isDocument extension then
    match w.readAt (l ++ [name]) with
    | .ok source =>
      .pure { e with
        frontmatter := Frontmatter.extract source
        importable := declaresImportable source }
    | .error fault => .warn (.listingUnreadable e.path fault) e
  else .pure e

/-- What lies right in a directory, by name; a file has no entries. -/
def list (w : Workspace) (directory : Path) (extension : Text) :
    Logged (Except WalkFault (List ListingEntry)) :=
  match w.resolve directory with
  | .error fault => .pure (.error ⟨directory, fault⟩)
  | .ok l =>
    let entries := (w.tree.children l).map (entryAt w directory l extension)
    ⟨.ok (entries.map Logged.value), entries.flatMap Logged.log⟩

end Listing
end Folio
