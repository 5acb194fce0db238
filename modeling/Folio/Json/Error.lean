import Folio.Data.Mismatch

namespace Folio.Json

inductive Fault
  | eofInArray
  | eofInObject
  | eofInString
  | eofInValue
  | expectedColon
  | expectedItemEnd
  | expectedMemberEnd
  | expectedIdent
  | expectedValue
  | invalidEscape
  | invalidNumber
  | numberOutOfRange
  | controlCharacter
  | keyNotString
  | loneSurrogate
  | missingSurrogate
  | trailingComma
  | trailingCharacters
  | tooDeep
  | mismatch (m : Mismatch)
deriving DecidableEq, Repr

/-- The three families of faults: the text ends too early, it is not JSON, or it is JSON that does
not have the expected shape. -/
inductive Family
  | eof
  | syntactic
  | data
deriving DecidableEq, Repr

def Fault.family : Fault → Family
  | .eofInArray | .eofInObject | .eofInString | .eofInValue => .eof
  | .mismatch _ => .data
  | _ => .syntactic

def Fault.message : Fault → Text
  | .eofInArray => "EOF while parsing a list".toList
  | .eofInObject => "EOF while parsing an object".toList
  | .eofInString => "EOF while parsing a string".toList
  | .eofInValue => "EOF while parsing a value".toList
  | .expectedColon => "expected ".toList ++ ticked [':']
  | .expectedItemEnd => "expected ".toList ++ ticked [','] ++ " or ".toList ++ ticked [']']
  | .expectedMemberEnd => "expected ".toList ++ ticked [','] ++ " or ".toList ++ ticked ['\x7d']
  | .expectedIdent => "expected ident".toList
  | .expectedValue => "expected value".toList
  | .invalidEscape => "invalid escape".toList
  | .invalidNumber => "invalid number".toList
  | .numberOutOfRange => "number out of range".toList
  | .controlCharacter =>
    "control character (\\u0000-\\u001F) found while parsing a string".toList
  | .keyNotString => "key must be a string".toList
  | .loneSurrogate => "lone leading surrogate in hex escape".toList
  | .missingSurrogate => "unexpected end of hex escape".toList
  | .trailingComma => "trailing comma".toList
  | .trailingCharacters => "trailing characters".toList
  | .tooDeep => "recursion limit exceeded".toList
  | .mismatch m => m.message

/-- A fault, and how many bytes of the input were left unread when it was found. -/
structure Failure where
  fault : Fault
  left : Nat
deriving DecidableEq, Repr

/-- A fault at a line, counted from one, and a column, the bytes of that line before it. -/
structure Error where
  fault : Fault
  line : Nat
  column : Nat
deriving DecidableEq, Repr

/-- The line and column reached after a number of bytes. -/
def position (line column : Nat) : Text → Nat → Nat × Nat
  | [], _ => (line, column)
  | c :: cs, n =>
    if n < c.utf8Size then (line, column + n)
    else if c = '\n' then position (line + 1) 0 cs (n - 1)
    else position line (column + c.utf8Size) cs (n - c.utf8Size)

/-- The place of a failure within the text that was read. -/
def Failure.locate (source : Text) (f : Failure) : Error :=
  let (line, column) := position 1 0 source (source.byteSize - f.left)
  ⟨f.fault, line, column⟩

def Error.message (e : Error) : Text :=
  e.fault.message ++ " at line ".toList ++ Text.ofNat e.line ++ " column ".toList
    ++ Text.ofNat e.column

end Folio.Json
