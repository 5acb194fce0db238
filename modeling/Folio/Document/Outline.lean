import Folio.Document.Segment

namespace Folio

/-- What the parser does at a token: the node that it makes, how many tokens it takes, and whether a
directive answered without taking any. -/
structure Step where
  node : Option Node
  taken : Nat
  stalled : Bool
deriving Repr

namespace Step

/-- A name and a value, split at the first blank. -/
def variableNode (definition : Text) : Node :=
  let (name, value) := match Text.splitFirst? Text.isBlank definition with
    | some (name, value) => (name, Text.trim value)
    | none => (definition, [])
  .composite Kind.variableKind
    [.scalar Kind.variableName name, .scalar Kind.variableValue value]

def builtinNode? (t : Token) : Option Node :=
  if t.kind ∈ Kind.flags then some (.scalar t.kind "true".toList)
  else if t.kind ∈ [Kind.importKind, Kind.frontmatter, Kind.script] then
    some (.scalar t.kind t.value)
  else if t.kind = Kind.variableKind then some (variableNode t.value)
  else none

/-- Text that no directive takes stands for itself; a token of another kind gives nothing. -/
def unclaimed (t : Token) : Step :=
  ⟨if t.kind = Kind.text then some (.scalar Kind.text t.value) else none, 1, false⟩

def at? (r : Registry) (c : TokenCursor) : Option Step :=
  (c.peek? 0).map fun t =>
    match builtinNode? t with
    | some n => ⟨some n, 1, false⟩
    | none => match r.parse? c with
      | some p => ⟨some p.node, max 1 p.jumped, p.jumped = 0⟩
      | none => unclaimed t

theorem taken_pos {r : Registry} {c : TokenCursor} {s : Step} (h : at? r c = some s) :
    0 < s.taken := by
  unfold at? at h
  obtain ⟨t, -, rfl⟩ := Option.map_eq_some_iff.1 h
  split
  · simp
  · split
    · simp only []; omega
    · simp [unclaimed]

end Step

/-- The nodes of the tokens from an index on. -/
def parseFrom (r : Registry) (tokens : List Token) (index : Nat) : Logged (List Node) :=
  match _h : tokens[index]? with
  | none => ⟨[], []⟩
  | some t =>
    match hs : Step.at? r ⟨tokens, index⟩ with
    | none => ⟨[], []⟩
    | some s =>
      if Addressable tokens.length (index + s.taken) then
        let rest := parseFrom r tokens (index + s.taken)
        ⟨s.node.toList ++ rest.value,
          (if s.stalled then [.unconsumedToken t.kind] else []) ++ rest.log⟩
      else ⟨[], [.overflow]⟩
termination_by tokens.length - index
decreasing_by
  have h1 := Step.taken_pos hs
  have h2 : index < tokens.length := (List.getElem?_eq_some_iff.1 _h).1
  omega

def parseTokens (r : Registry) (tokens : List Token) : Logged (List Node) := parseFrom r tokens 0

/-- The nodes of a document, with its imports as they are written. -/
def nodesOf (r : Registry) (source : Text) : Logged (List Node) :=
  (tokenize r source).bind (parseTokens r)

end Folio
