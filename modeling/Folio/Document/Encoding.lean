import Folio.Data.Value
import Folio.Document.Listing
import Folio.Json.Skip

/-! Tokens, nodes and listings as JSON. A token or node is an object with a kind and a value or
content, or a list of the two; the content of a node is text or a list of nodes. Fields that neither
has are passed over. -/
namespace Folio

namespace Encoding

def kindKey : Text := "type".toList
def valueKey : Text := "value".toList
def contentKey : Text := "content".toList

end Encoding

open Encoding

def Token.toJson (t : Token) : Json :=
  .object [(kindKey, .string t.kind), (valueKey, .string t.value)]

mutual

def Node.toJson : Node → Json
  | .scalar kind t => .object [(kindKey, .string kind), (contentKey, .string t)]
  | .composite kind ns => .object [(kindKey, .string kind), (contentKey, .array (Node.allToJson ns))]

def Node.allToJson : List Node → List Json
  | [] => []
  | n :: ns => n.toJson :: Node.allToJson ns

end

def ListingEntry.toJson (e : ListingEntry) : Json :=
  .object [("name".toList, .string e.name), ("path".toList, .string e.path.text),
    ("is_dir".toList, .bool e.isDirectory), ("frontmatter".toList, .object e.frontmatter),
    ("importable".toList, .bool e.importable)]

/-- The content of a node before its kind is known. -/
inductive NodeContent
  | text (t : Text)
  | nodes (ns : List Node)

def Node.ofParts (kind : Text) : NodeContent → Node
  | .text t => .scalar kind t
  | .nodes ns => .composite kind ns

mutual

/-- A node from a value that was read; none if it has not the shape of one. -/
def Node.ofJson? : Json → Option Node
  | .object ms => match Node.partsOf? ms with
    | some (some kind, some content) => some (.ofParts kind content)
    | _ => none
  | .array [kind, content] => match kind, NodeContent.ofJson? content with
    | .string k, some c => some (.ofParts k c)
    | _, _ => none
  | _ => none

def NodeContent.ofJson? : Json → Option NodeContent
  | .string t => some (.text t)
  | .array js => (Node.allOfJson? js).map .nodes
  | _ => none

def Node.allOfJson? : List Json → Option (List Node)
  | [] => some []
  | j :: js => match Node.ofJson? j, Node.allOfJson? js with
    | some n, some ns => some (n :: ns)
    | _, _ => none

/-- The kind and content among the members of an object, each at most once. -/
def Node.partsOf? : List (Text × Json) → Option (Option Text × Option NodeContent)
  | [] => some (none, none)
  | (key, j) :: ms => match Node.partsOf? ms with
    | none => none
    | some (kind, content) =>
      if key = kindKey then
        match j, kind with
        | .string k, none => some (some k, content)
        | _, _ => none
      else if key = contentKey then
        match NodeContent.ofJson? j, content with
        | some c, none => some (kind, some c)
        | _, _ => none
      else some (kind, content)

end

namespace Json

/-- A fault of the data found before a place in the input. -/
def dataFault (m : Mismatch) (s : Text) : Failure := failHere (.mismatch m) s

/-- Read a pair of a kind and a second part, as an object or as a list. -/
def readPair (name second : Text) (readSecond : Text → Reading β) (s : Text) : Reading (Text × β) :=
  let step (state : Option Text × Option β) (key r : Text) : Reading (Option Text × Option β) :=
    if key = kindKey then
      if state.1.isSome then .error (dataFault (.duplicateField key) r)
      else (readText r).map fun (t, rest) => ((some t, state.2), rest)
    else if key = second then
      if state.2.isSome then .error (dataFault (.duplicateField key) r)
      else (readSecond r).map fun (x, rest) => ((state.1, some x), rest)
    else (skip r).map fun rest => (state, rest)
  let item {α : Type} (count : Nat) (read : Text → Reading α) (s : Text) : Reading α :=
    match skipSpace s with
    | [] => .error (failAt .eofInArray [])
    | c :: cs =>
      let missing :=
        dataFault (.length count ("struct ".toList ++ name ++ " with 2 elements".toList)) (c :: cs)
      if c = ']' then .error missing
      else if count = 0 then read (c :: cs)
      else if c = ',' then
        match skipSpace cs with
        | ']' :: _ => .error (failAt .trailingComma cs)
        | [] => .error (failAt .eofInValue [])
        | r => read r
      else .error (failAt .expectedItemEnd (c :: cs))
  match skipSpace s with
  | [] => .error (failAt .eofInValue [])
  | c :: cs =>
    if c = '\x7b' then
      match foldMembers step (cs.length + 1) true (none, none) cs with
      | .error e => .error e
      | .ok ((some t, some x), rest) => .ok ((t, x), rest)
      | .ok ((none, _), rest) => .error (dataFault (.missingField kindKey) rest)
      | .ok ((some _, none), rest) => .error (dataFault (.missingField second) rest)
    else if c = '[' then
      match item 0 readText cs with
      | .error e => .error e
      | .ok (t, rest) => match item 1 readSecond rest with
        | .error e => .error e
        | .ok (x, rest) => (closeArray rest).map fun rest => ((t, x), rest)
    else .error (unexpected ("struct ".toList ++ name) c cs)

/-- Read a list of pairs. -/
def readPairs (name second : Text) (readSecond : Text → Reading β) (s : Text) :
    Reading (List (Text × β)) :=
  match skipSpace s with
  | [] => .error (failAt .eofInValue [])
  | c :: cs =>
    if c = '[' then
      match readItems (readPair name second readSecond) (cs.length + 1) true cs with
      | .error e => .error e
      | .ok (xs, rest) => (closeArray rest).map fun rest => (xs, rest)
    else .error (unexpected "a sequence".toList c cs)

/-- The content of a node, two levels within a text. -/
def readContent (s : Text) : Reading NodeContent :=
  match readValue (depthLimit - 2) s with
  | .error e => .error e
  | .ok (j, rest) => match NodeContent.ofJson? j with
    | some c => .ok (c, rest)
    | none => .error (dataFault (.noAlternative "Content".toList) rest)

end Json

def Json.decodeText (j : Json) : Except Mismatch Text :=
  match j with
  | .string t => .ok t
  | _ => .error (.type j.toData.found "a string".toList)

/-- The fields of a pair in a value that was read, an object with sorted members or a list. -/
def Json.decodePair (name second : Text) (decodeSecond : Json → Except Mismatch β) (j : Json) :
    Except Mismatch (Text × β) :=
  let expected (count : Nat) : Mismatch :=
    .length count ("struct ".toList ++ name ++ " with 2 elements".toList)
  match j with
  | .object ms =>
    let read (state : Option Text × Option β) (m : Text × Json) :
        Except Mismatch (Option Text × Option β) :=
      if m.1 = kindKey then (decodeText m.2).map fun t => (some t, state.2)
      else if m.1 = second then (decodeSecond m.2).map fun x => (state.1, some x)
      else .ok state
    (ms.foldlM read (none, none)).bind fun
      | (some t, some x) => .ok (t, x)
      | (none, _) => .error (.missingField kindKey)
      | (some _, none) => .error (.missingField second)
  | .array [] => .error (expected 0)
  | .array [k] => (decodeText k).bind fun _ => .error (expected 1)
  | .array (k :: x :: more) => (decodeText k).bind fun t => (decodeSecond x).bind fun y =>
    if more.isEmpty then .ok (t, y)
    else .error (.length (more.length + 2) "fewer elements in array".toList)
  | _ => .error (.type j.toData.found ("struct ".toList ++ name))

def Json.decodeItems (decode : Json → Except Mismatch α) (j : Json) : Except Mismatch (List α) :=
  match j with
  | .array items => items.mapM decode
  | _ => .error (.type j.toData.found "a sequence".toList)

def Token.decode (j : Json) : Except Mismatch Token :=
  (Json.decodePair "Token".toList valueKey Json.decodeText j).map fun p => ⟨p.1, p.2⟩

def Node.decode (j : Json) : Except Mismatch Node :=
  let content (j : Json) : Except Mismatch NodeContent :=
    match NodeContent.ofJson? j with
    | some c => .ok c
    | none => .error (.noAlternative "Content".toList)
  (Json.decodePair "Node".toList contentKey content j).map fun p => .ofParts p.1 p.2

/-- The tokens in a JSON text. -/
def Token.parseAll (s : Text) : Except Json.Error (List Token) :=
  (Json.whole (Json.readPairs "Token".toList valueKey Json.readText) s).map
    fun ps => ps.map fun p => ⟨p.1, p.2⟩

/-- The nodes in a JSON text. -/
def Node.parseAll (s : Text) : Except Json.Error (List Node) :=
  (Json.whole (Json.readPairs "Node".toList contentKey Json.readContent) s).map
    fun ps => ps.map fun p => .ofParts p.1 p.2

end Folio
