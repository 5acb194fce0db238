import Folio.Data.Mismatch
import Folio.Decimal.Shortest
import Folio.Json.Basic

namespace Folio

/-- Data as settings are read from it, whatever format it was written in. -/
inductive Data
  | null
  | bool (b : Bool)
  | integer (n : Int)
  /-- A number with a fraction, as its format shows it. -/
  | float (shown : Text)
  | string (t : Text)
  | list (items : List Data)
  | table (members : List (Text × Data))
deriving Repr, Inhabited

namespace Data

def found : Data → Found
  | null => .null
  | bool b => .bool b
  | integer n => .integer (Text.ofInt n)
  | float shown => .float shown
  | string t => .string t
  | list _ => .sequence
  | table _ => .map

end Data

mutual

/-- A JSON value as data, in the order of its members. -/
def Json.toData : Json → Data
  | .null => .null
  | .bool b => .bool b
  | .number (.natural n) => .integer n
  | .number (.negative n) => .integer (-n)
  | .number (.float x) => .float (Decimal.data x)
  | .string t => .string t
  | .array items => .list (Json.itemsToData items)
  | .object members => .table (Json.membersToData members)

def Json.itemsToData : List Json → List Data
  | [] => []
  | j :: js => j.toData :: Json.itemsToData js

def Json.membersToData : List (Text × Json) → List (Text × Data)
  | [] => []
  | (k, j) :: js => (k, j.toData) :: Json.membersToData js

end

end Folio
