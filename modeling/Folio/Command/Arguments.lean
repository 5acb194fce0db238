import Folio.Files.Path

namespace Folio.Command

/-- A switch by its long name, and by a letter if it has one. -/
structure Switch where
  name : Text
  letter : Option Char
  takesValue : Bool
deriving DecidableEq, Repr

/-- What has been read: the switches with their values, and the other words. -/
structure Arguments where
  switches : List (Text × Text)
  words : List Text
deriving DecidableEq, Repr

/-- Why reading stops before the end. -/
inductive Stop
  | help
  | version
  | usage
deriving DecidableEq, Repr

namespace Arguments

def empty : Arguments := ⟨[], []⟩

def has (a : Arguments) (name : String) : Bool := (a.switches.lookup name.toList).isSome

def value? (a : Arguments) (name : String) : Option Text := a.switches.lookup name.toList

/-- Take note of a switch; each is given once. -/
def note (a : Arguments) (s : Switch) (value : Text) : Except Stop Arguments :=
  if (a.switches.lookup s.name).isSome then .error .usage
  else if s.takesValue && value.isEmpty then .error .usage
  else .ok { a with switches := a.switches ++ [(s.name, value)] }

/-- The switches that stop the reading. -/
def stop? (hasVersion : Bool) (name : Text) : Option Stop :=
  if name = "help".toList then some .help
  else if hasVersion && name = "version".toList then some .version
  else none

def stopLetter? (hasVersion : Bool) (c : Char) : Option Stop :=
  if c = 'h' then some .help else if hasVersion && c = 'V' then some .version else none

/-- A word that can be no value. -/
def isSwitch (word : Text) : Bool :=
  match word with
  | '-' :: _ :: _ => true
  | _ => false

/-- A switch that was read, and whether it waits for its value. -/
inductive Read
  | done (a : Arguments)
  | waiting (a : Arguments) (s : Switch)

/-- A long switch, without its hyphens. -/
def readLong (known : List Switch) (hasVersion : Bool) (a : Arguments) (word : Text) :
    Except Stop Read :=
  let (name, value) := match Text.splitFirst? (· = '=') word with
    | some (name, value) => (name, some value)
    | none => (word, none)
  match stop? hasVersion name with
  | some s => .error (if value.isSome then .usage else s)
  | none => match known.find? fun s => s.name = name with
    | none => .error .usage
    | some s => match s.takesValue, value with
      | true, some v => (a.note s v).map .done
      | true, none => .ok (.waiting a s)
      | false, none => (a.note s []).map .done
      | false, some _ => .error .usage

/-- The letters of short switches; what follows one that takes a value is its value. -/
def readLetters (known : List Switch) (hasVersion : Bool) (a : Arguments) :
    Text → Except Stop Read
  | [] => .ok (.done a)
  | c :: cs => match stopLetter? hasVersion c with
    | some s => .error s
    | none => match known.find? fun s => s.letter = some c with
      | none => .error .usage
      | some s =>
        if s.takesValue then
          match cs with
          | [] => .ok (.waiting a s)
          | '=' :: v => (a.note s v).map .done
          | v => (a.note s v).map .done
        else (a.note s []).bind fun a => readLetters known hasVersion a cs

/-- A word that is no switch; at most `most` of them, none empty. -/
def word (most : Nat) (a : Arguments) (w : Text) : Except Stop Arguments :=
  if a.words.length < most && !w.isEmpty then .ok { a with words := a.words ++ [w] }
  else .error .usage

/-- Read the words of a command with at most `most` of them that are no switches. -/
def read (known : List Switch) (most : Nat) (a : Arguments) : List Text → Except Stop Arguments
  | [] => .ok a
  | w :: ws =>
    if w = ['-', '-'] then ws.foldlM (word most) a
    else
      let result : Option (Except Stop Read) := match w with
        | '-' :: '-' :: name => some (readLong known false a name)
        | '-' :: c :: cs => some (readLetters known false a (c :: cs))
        | _ => none
      match result with
      | none => (word most a w).bind fun a => read known most a ws
      | some (.error s) => .error s
      | some (.ok (.done a)) => read known most a ws
      | some (.ok (.waiting a s)) => match ws with
        | [] => .error .usage
        | v :: ws =>
          if isSwitch v then .error .usage
          else (a.note s v).bind fun a => read known most a ws

end Arguments
end Folio.Command
