import Folio.Command.Arguments

namespace Folio.Command

inductive Request
  | build (path : Path) (output : Option Path)
  | render (file : Path)
  | tokens (file : Path)
  | nodes (file : Path)
  | list (directory : Path) (plain : Bool)
  | stockSettings
deriving DecidableEq, Repr

def verbose : Switch := ⟨"verbose".toList, some 'v', false⟩

def names : List String := ["build", "render", "tokens", "nodes", "ls", "gen-config"]

/-- The path among the words of a command. -/
def required (a : Arguments) (f : Path → Request) : Except Stop Request :=
  match a.words with
  | w :: _ => .ok (f ⟨w⟩)
  | [] => .error .usage

/-- The path among the words of a command, or else the current directory. -/
def optional (a : Arguments) : Path := ⟨a.words.head?.getD ['.']⟩

/-- Read what follows the name of a command. -/
def Request.named (name : Text) (words : List Text) : Except Stop Request :=
  let read (known : List Switch) (most : Nat) : Except Stop Arguments :=
    Arguments.read (verbose :: known) most .empty words
  if name = "build".toList then
    (read [⟨"output".toList, some 'o', true⟩] 1).map fun a =>
      .build (optional a) ((a.value? "output").map Path.mk)
  else if name = "render".toList then (read [] 1).bind fun a => required a .render
  else if name = "tokens".toList then (read [] 1).bind fun a => required a .tokens
  else if name = "nodes".toList then (read [] 1).bind fun a => required a .nodes
  else if name = "ls".toList then
    (read [⟨"plain".toList, none, false⟩] 1).map fun a => .list (optional a) (a.has "plain")
  else if name = "gen-config".toList then (read [] 0).map fun _ => .stockSettings
  else if name = "help".toList then
    .error (match words with
      | [] => .help
      | [w] => if w ∈ "help".toList :: names.map String.toList then .help else .usage
      | _ => .usage)
  else .error .usage

/-- Read a command line: switches, the name of a command, and what belongs to it. -/
def Request.read (a : Arguments) : List Text → Except Stop Request
  | [] => .error .usage
  | w :: ws =>
    match w with
    | '-' :: '-' :: name =>
      if name.isEmpty then .error .usage
      else match Arguments.readLong [verbose] true a name with
        | .error s => .error s
        | .ok (.done a) => read a ws
        | .ok (.waiting ..) => .error .usage
    | '-' :: c :: cs => match Arguments.readLetters [verbose] true a (c :: cs) with
      | .error s => .error s
      | .ok (.done a) => read a ws
      | .ok (.waiting ..) => .error .usage
    | _ => named w ws

def Request.parse (words : List Text) : Except Stop Request := Request.read .empty words

end Folio.Command
