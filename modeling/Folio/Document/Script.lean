import Folio.Document.Import
import Folio.Document.Listing

/-! Scripts. A host runs the code of a script block against what a page shows it, and may append to
the head and the body of the page. What it appended before a fault stays. -/
namespace Folio

/-- A link to a stylesheet for the head of a page. -/
def stylesheetLink (href : Text) : Text :=
  Html.startTag "link".toList [("rel".toList, "stylesheet".toList), ("href".toList, href)]

/-- Variables of a document, sorted by name. -/
abbrev Variables := List (Text × Text)

namespace Script

/-- What a script may read. -/
structure View where
  workspace : Workspace
  base : Path
  extension : Text
  frontmatter : Frontmatter
  bindings : Variables

/-- What a script may append to, in order. -/
structure Buffers where
  head : List Text
  body : List Text
deriving DecidableEq, Repr, Inhabited

namespace Buffers

def empty : Buffers := ⟨[], []⟩

def pushHead (b : Buffers) (t : Text) : Buffers := { b with head := b.head ++ [t] }

def pushBody (b : Buffers) (t : Text) : Buffers := { b with body := b.body ++ [t] }

def heading (b : Buffers) (level : Nat) (t : Text) : Buffers :=
  b.pushBody (Directive.headingMarkup level t)

def linkStylesheet (b : Buffers) (href : Text) : Buffers := b.pushHead (stylesheetLink href)

end Buffers

namespace View

def valueOf? (v : View) (name : Text) : Option Text := v.bindings.lookup name

/-- A path that names what lies below a directory, or the directory itself. -/
def isWithin (p : Path) : Bool :=
  p.components.all fun
    | .name _ => true
    | .current => true
    | .root => false
    | .parent => false

/-- List a directory by its path from the document; no path leads out of its directory. -/
def list (v : View) (relative : Text) : Logged (Except ScriptFault (List ListingEntry)) :=
  if isWithin ⟨relative⟩ then
    let found := Listing.list v.workspace (v.base.join ⟨relative⟩) v.extension
    ⟨found.value.mapError .unlisted, found.log⟩
  else .pure (.error (.outsideDocument relative))

end View

/-- What running a script leaves: the buffers, and why it stopped early. -/
structure Outcome where
  buffers : Buffers
  fault : Option ScriptFault

structure Host where
  run : View → (code : Text) → Buffers → Logged Outcome

/-- A host that skips scripts. -/
def idle : Host := ⟨fun _ code b => .warn (.scriptSkipped (Text.lines code).length) ⟨b, none⟩⟩

/-- A call of a function with at most one argument. -/
structure Call where
  name : Text
  argument : Option Text
deriving DecidableEq, Repr

def isFunctionName (t : Text) : Bool :=
  !t.isEmpty && t.all fun c => Text.isAsciiAlphanumeric c || c = '_'

/-- Read a trimmed line as a call: a name, and a JSON string or nothing in parentheses. -/
def parseCall (line : Nat) (t : Text) : Except ScriptFault Call :=
  match Text.splitFirst? (· = '(') t with
  | none => .error (.malformed line t)
  | some (name, rest) => match Text.stripSuffix? [')'] rest with
    | none => .error (.malformed line t)
    | some inner =>
      let name := Text.trim name
      let inner := Text.trim inner
      if !isFunctionName name then .error (.malformed line t)
      else if inner.isEmpty then .ok ⟨name, none⟩
      else match Json.whole Json.readText inner with
        | .error e => .error (.argument line e)
        | .ok s => .ok ⟨name, some s⟩

/-- The directory part of the links in a listing. -/
def linkStart (directory : Text) : Text :=
  let d := (directory.reverse.dropWhile (· = '/')).reverse
  if d.isEmpty || d = ['.'] then [] else d ++ ['/']

/-- Links to the pages of the documents in a listing; importable ones have none. -/
def listingMarkup (directory : Text) (entries : List ListingEntry) (extension : Text) : Text :=
  let shown := entries.filter fun e => e.isDocument extension && !e.importable
  Html.element "ul".toList [("class".toList, "listing".toList)] (shown.flatMap fun e =>
    let href := linkStart directory ++ e.path.stem?.getD [] ++ ".html".toList
    Html.element "li".toList [] (Html.element ['a'] [("href".toList, href)] (Html.escape e.title)))

/-- The level of a heading function. -/
def headingLevel? (name : Text) : Option Nat :=
  match name with
  | ['h', d] => if '1' ≤ d && d ≤ '6' then some (d.toNat - '0'.toNat) else none
  | _ => none

/-- Append what a call asks for. -/
def perform (v : View) (line : Nat) (c : Call) (b : Buffers) : Logged (Except ScriptFault Buffers) :=
  let withArgument (f : Text → Buffers) : Logged (Except ScriptFault Buffers) :=
    .pure (match c.argument with
      | some a => .ok (f a)
      | none => .error (.missingArgument line c.name))
  if let some level := headingLevel? c.name then withArgument (b.heading level)
  else if c.name = "html".toList then withArgument b.pushBody
  else if c.name = "head".toList then withArgument b.pushHead
  else if c.name = "link_css".toList then withArgument b.linkStylesheet
  else if c.name = "var".toList then withArgument fun a => b.pushBody ((v.valueOf? a).getD [])
  else if c.name = "list".toList then
    let directory := c.argument.getD ['.']
    let found := v.list directory
    ⟨found.value.map fun entries => b.pushBody (listingMarkup directory entries v.extension),
      found.log⟩
  else .pure (.error (.unknownFunction line c.name))

/-- Run the lines of a script from a line number on. Blank lines and comments do nothing. -/
def runLines (v : View) (line : Nat) (b : Buffers) : List Text → Logged Outcome
  | [] => .pure ⟨b, none⟩
  | l :: ls =>
    let t := Text.trim l
    if t.isEmpty || (Text.stripPrefix? ['/', '/'] t).isSome then runLines v (line + 1) b ls
    else match parseCall line t with
      | .error fault => .pure ⟨b, some fault⟩
      | .ok c =>
        let done := perform v line c b
        match done.value with
        | .error fault => ⟨⟨b, some fault⟩, done.log⟩
        | .ok b' =>
          let rest := runLines v (line + 1) b' ls
          ⟨rest.value, done.log ++ rest.log⟩

/-- A host for one call on each line. -/
def caller : Host := ⟨fun v code b => runLines v 1 b (Text.lines code)⟩

end Script
end Folio
