import Folio.Document.Node
import Folio.Json.Reader

namespace Folio

/-- Members sorted by key. -/
abbrev Frontmatter := List (Text × Json)

namespace Frontmatter

/-- The text after the marker on the first of the lines, with all further lines. -/
def afterMarker? : List Text → Option Text
  | [] => none
  | l :: ls =>
    let line := Text.trim l
    let rest := if line = Kind.frontmatter then some []
      else (Text.stripPrefix? Kind.frontmatter line).bind (Text.stripPrefix? [' '])
    rest.map fun r => Text.joinWith ['\n'] (r :: ls)

/-- The object whose marker is on the first of the lines, and how many lines it spans. -/
def capture? (lines : List Text) : Option (Text × Nat) :=
  match afterMarker? lines with
  | none => none
  | some t =>
    let body := Text.trimStart t
    match body with
    | '\x7b' :: _ => match Json.readValue Json.depthLimit body with
      | .ok (.object _, rest) =>
        let object := body.take (body.length - rest.length)
        let passed := t.take (t.length - rest.length)
        some (object, 1 + passed.count '\n')
      | _ => none
    | _ => none

/-- The members of a whole JSON object. -/
def parse (t : Text) : Except Json.Error Frontmatter :=
  match Json.whole Json.readObject t with
  | .error e => .error e
  | .ok members => .ok (Json.sortMembers (Json.canonicalMembers members))

/-- The first object after a marker anywhere in a document; empty if there is none. -/
def extractFrom : List Text → Frontmatter
  | [] => []
  | l :: ls =>
    let found := if (Text.stripPrefix? Kind.frontmatter (Text.trimStart l)).isSome then
      capture? (l :: ls) else none
    match found with
    | some (t, _) => (parse t).toOption.getD []
    | none => extractFrom ls

def extract (source : Text) : Frontmatter := extractFrom (Text.lines source)

def textOf? (f : Frontmatter) (key : Text) : Option Text := (f.lookup key).bind Json.text?

def title? (f : Frontmatter) : Option Text := f.textOf? "title".toList

def description? (f : Frontmatter) : Option Text := f.textOf? "description".toList

/-- The members of both; where both have a key, that of the second. -/
def union (f g : Frontmatter) : Frontmatter :=
  g.foldl (fun f m => Json.insertMember m.1 m.2 f) f

end Frontmatter
end Folio
