import Folio.Text.Quoted

namespace Folio

/-- The kind of value that was found, as messages name it. -/
inductive Found
  | null
  | bool (b : Bool)
  | integer (shown : Text)
  | float (shown : Text)
  | string (s : Text)
  | sequence
  | map
deriving DecidableEq, Repr

inductive Mismatch
  | type (found : Found) (expected : Text)
  | value (found : Found) (expected : Text)
  | length (count : Nat) (expected : Text)
  | unknownField (name : Text) (known : List Text)
  | missingField (name : Text)
  | duplicateField (name : Text)
  | noAlternative (name : Text)
deriving DecidableEq, Repr

/-- A name between backticks. -/
def ticked (t : Text) : Text := '\x60' :: t ++ ['\x60']

def Found.describe : Found → Text
  | .null => "null".toList
  | .bool b => "boolean ".toList ++ ticked (if b then "true".toList else "false".toList)
  | .integer shown => "integer ".toList ++ ticked shown
  | .float shown => "floating point ".toList ++ ticked shown
  | .string s => "string ".toList ++ Text.quoted s
  | .sequence => "sequence".toList
  | .map => "map".toList

/-- The fields that would have been accepted. -/
def oneOf : List Text → Text
  | [] => "there are no fields".toList
  | [a] => "expected ".toList ++ ticked a
  | [a, b] => "expected ".toList ++ ticked a ++ " or ".toList ++ ticked b
  | names => "expected one of ".toList ++ Text.joinWith ", ".toList (names.map ticked)

def Mismatch.message : Mismatch → Text
  | .type found expected =>
    "invalid type: ".toList ++ found.describe ++ ", expected ".toList ++ expected
  | .value found expected =>
    "invalid value: ".toList ++ found.describe ++ ", expected ".toList ++ expected
  | .length count expected =>
    "invalid length ".toList ++ Text.ofNat count ++ ", expected ".toList ++ expected
  | .unknownField name known => "unknown field ".toList ++ ticked name ++ ", ".toList ++ oneOf known
  | .missingField name => "missing field ".toList ++ ticked name
  | .duplicateField name => "duplicate field ".toList ++ ticked name
  | .noAlternative name => "data did not match any variant of untagged enum ".toList ++ name

end Folio
