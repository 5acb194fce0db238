import Folio.Document.Directive
import Folio.Document.Fault
import Folio.Document.Frontmatter

namespace Folio

/-- A part of the lines of a document; one after another they make up all of them. -/
inductive Segment
  | blank
  /-- A claim, and the line on which it starts. -/
  | claimed (line : Text) (claim : Claim)
  /-- A claim that takes the cursor too far. The scan ends with it. -/
  | overflow (claim : Claim)
  /-- Lines of running text, trimmed. -/
  | run (lines : List Text)
deriving DecidableEq, Repr

namespace Segment

/-- The constructs that every registry knows. -/
def builtinClaim? (line : Text) (lines : List Text) (index : Nat) : Option Claim :=
  if line ∈ Kind.flags then some (.single line "true".toList)
  else if let some path := Lines.argument? Kind.importKind line then
    some (.single Kind.importKind path)
  else if let some definition := Lines.argument? "var".toList line then
    some (.single Kind.variableKind definition)
  else if let some (object, spanned) := Frontmatter.capture? (lines.drop index) then
    some ⟨spanned, [⟨Kind.frontmatter, object⟩]⟩
  else
    let script := Directive.claimBlock Kind.script line lines index
    if script.isMatch then some script else none

/-- The line at an index, trimmed; blank past the end. -/
def lineAt (lines : List Text) (index : Nat) : Text := Text.trim (lines[index]?.getD [])

/-- The claim on a line: of a built-in construct, or of the first directive that matches. -/
def claimAt? (r : Registry) (lines : List Text) (index : Nat) : Option Claim :=
  (builtinClaim? (lineAt lines index) lines index).or
    (r.claim? (lineAt lines index) lines index)

/-- The line begins something else than a further line of running text. -/
def endsRun (r : Registry) (lines : List Text) (index : Nat) : Bool :=
  (lineAt lines index).isEmpty || (claimAt? r lines index).isSome

/-- The further lines of running text from an index on. -/
def runFrom (r : Registry) (lines : List Text) (index : Nat) : List Text :=
  if index < lines.length then
    if endsRun r lines index then []
    else lineAt lines index :: runFrom r lines (index + 1)
  else []
termination_by lines.length - index

/-- The segments from an index on. A claim of no line still takes one, and the cursor moves before the
tokens are kept. -/
def startingAt (r : Registry) (lines : List Text) (index : Nat) : List Segment :=
  if index < lines.length then
    let line := lineAt lines index
    if line.isEmpty then .blank :: startingAt r lines (index + 1)
    else match claimAt? r lines index with
      | some c =>
        if Addressable lines.length (index + max 1 c.jumped) then
          .claimed line c :: startingAt r lines (index + max 1 c.jumped)
        else [.overflow c]
      | none =>
        let more := runFrom r lines (index + 1)
        .run (line :: more) :: startingAt r lines (index + 1 + more.length)
  else []
termination_by lines.length - index

def tokens : Segment → List Token
  | blank => []
  | claimed _ c => c.tokens
  | overflow _ => []
  | run lines => [⟨Kind.text, Text.joinWith [' '] lines⟩]

def warnings : Segment → List Warning
  | claimed line c => if c.jumped = 0 then [.unconsumedLine line] else []
  | overflow _ => [.overflow]
  | _ => []

end Segment

/-- The segments of a document. -/
def segments (r : Registry) (source : Text) : List Segment :=
  Segment.startingAt r (Text.lines source) 0

/-- The tokens of a document. -/
def tokenize (r : Registry) (source : Text) : Logged (List Token) :=
  let ss := segments r source
  ⟨ss.flatMap Segment.tokens, ss.flatMap Segment.warnings⟩

end Folio
