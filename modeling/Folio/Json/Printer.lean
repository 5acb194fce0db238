import Folio.Json.Basic
import Folio.Decimal.Shortest

namespace Folio.Json

def hexDigit (n : Nat) : Char := Nat.digitChar n

/-- Four hexadecimal digits. -/
def hex4 (n : Nat) : Text :=
  [hexDigit (n / 4096 % 16), hexDigit (n / 256 % 16), hexDigit (n / 16 % 16), hexDigit (n % 16)]

/-- One character of a string as it is written between the quotation marks. -/
def escapeChar (c : Char) : Text :=
  if c = '"' then ['\\', '"']
  else if c = '\\' then ['\\', '\\']
  else if c = '\n' then ['\\', 'n']
  else if c = '\r' then ['\\', 'r']
  else if c = '\t' then ['\\', 't']
  else if c.toNat = 8 then ['\\', 'b']
  else if c.toNat = 12 then ['\\', 'f']
  else if c.toNat < 32 then '\\' :: 'u' :: hex4 c.toNat
  else [c]

def quote (s : Text) : Text := '"' :: (s.flatMap escapeChar ++ ['"'])

def Number.render : Number → Text
  | .natural n => Text.ofNat n
  | .negative n => '-' :: Text.ofNat n
  | .float x => Decimal.data x

/-- A line break and the indentation of a nesting level. -/
def newline (level : Nat) : Text := '\n' :: List.replicate (2 * level) ' '

mutual

/-- The pretty form of a value that starts at a nesting level. -/
def prettyAt (level : Nat) : Json → Text
  | .null => "null".toList
  | .bool true => "true".toList
  | .bool false => "false".toList
  | .number n => n.render
  | .string s => quote s
  | .array [] => "[]".toList
  | .array (j :: js) =>
    '[' :: newline (level + 1) ++ prettyAt (level + 1) j ++ prettyItems (level + 1) js
      ++ newline level ++ [']']
  | .object [] => ['\x7b', '\x7d']
  | .object ((k, j) :: js) =>
    '\x7b' :: newline (level + 1) ++ quote k ++ ": ".toList ++ prettyAt (level + 1) j
      ++ prettyMembers (level + 1) js ++ newline level ++ ['\x7d']

/-- The items after the first, each with the comma before it. -/
def prettyItems (level : Nat) : List Json → Text
  | [] => []
  | j :: js => ',' :: newline level ++ prettyAt level j ++ prettyItems level js

/-- The members after the first, each with the comma before it. -/
def prettyMembers (level : Nat) : List (Text × Json) → Text
  | [] => []
  | (k, j) :: js =>
    ',' :: newline level ++ quote k ++ ": ".toList ++ prettyAt level j ++ prettyMembers level js

end

def pretty (j : Json) : Text := prettyAt 0 j

end Folio.Json
