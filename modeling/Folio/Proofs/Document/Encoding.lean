import Folio.Command.Run
import Folio.Proofs.Document.Keyword
import Folio.Proofs.Json.Pretty

namespace Folio

open Encoding

namespace Json

section Pair

variable {β : Type} {readSecond : Text → Reading β} {second : Text} {level : Nat}

/-- A pair of a kind and a second part, as it is written. -/
def ofPair (second kind : Text) (j : Json) : Json :=
  .object [(kindKey, .string kind), (second, j)]

theorem depth_ofPair (kind : Text) (j : Json) :
    (ofPair second kind j).depth = j.depth + 1 := by
  simp [ofPair, depth, depthOfMembers]

theorem nests_ofPair {kind : Text} {d : Nat} {j : Json} :
    Nests (d + 1) (ofPair second kind j) ↔ Nests d j := by
  constructor
  · rintro (_ | _ | _ | _ | h)
    exact h (second, j) (by simp)
  · intro h
    apply Nests.object
    simp [h, Nests.string]

/-- The step for the members of a pair: the kind and the second part each once, and nothing of others. -/
def pairStep (second : Text) (readSecond : Text → Reading β) (state : Option Text × Option β)
    (key r : Text) : Reading (Option Text × Option β) :=
  if key = kindKey then
    if state.1.isSome then .error (dataFault (.duplicateField key) r)
    else (readText r).map fun (t, rest) => ((some t, state.2), rest)
  else if key = second then
    if state.2.isSome then .error (dataFault (.duplicateField key) r)
    else (readSecond r).map fun (x, rest) => ((state.1, some x), rest)
  else (skip r).map fun rest => (state, rest)

theorem readPair_brace (name : Text) (cs : Text) :
    readPair name second readSecond ('\x7b' :: cs) =
      match foldMembers (pairStep second readSecond) (cs.length + 1) true (none, none) cs with
      | .error e => .error e
      | .ok ((some t, some x), rest) => .ok ((t, x), rest)
      | .ok ((none, _), rest) => .error (dataFault (.missingField kindKey) rest)
      | .ok ((some _, none), rest) => .error (dataFault (.missingField second) rest) := by
  rw [readPair]
  rfl

theorem reads_text (level : Nat) (s : Text) : Reads readText (' ' :: prettyAt level (.string s)) s := by
  intro rest
  have hquote : ' ' :: prettyAt level (.string s) ++ rest =
      ' ' :: '"' :: (s.flatMap escapeChar ++ '"' :: rest) := by
    rw [prettyAt, quote, List.cons_append, List.cons_append, List.append_assoc, List.singleton_append]
  rw [hquote]
  exact readStringBody_quote s rest

/-- A pair is read back if its second part is. -/
theorem reads_pair (hsecond : second ≠ kindKey) {x : β} {j : Json}
    (h : Reads readSecond (' ' :: prettyAt (level + 1) j) x) (name kind : Text) :
    Reads (readPair name second readSecond) (prettyAt level (ofPair second kind j)) (kind, x) := by
  -- the kind is read first, so that the second part finds it there
  have hkind : Reads (pairStep second readSecond (none, none) kindKey)
      (' ' :: prettyAt (level + 1) (.string kind)) (some kind, none) :=
    (reads_text (level + 1) kind).map fun t => (some t, none)
  have hvalue : Reads (pairStep second readSecond (some kind, none) second)
      (' ' :: prettyAt (level + 1) j) (some kind, some x) := by
    intro rest
    rw [pairStep, if_neg hsecond, if_pos rfl]
    exact h.map (fun x => (some kind, some x)) rest
  have hsteps : Steps (pairStep second readSecond) (level + 1) (none, none)
      [(kindKey, .string kind), (second, j)] (some kind, some x) :=
    .cons hkind (.cons hvalue (.nil _))
  intro rest
  rw [ofPair, prettyAt_object, List.cons_append, readPair_brace, foldMembers_objectRest hsteps]

theorem readPairs_bracket (name : Text) (cs : Text) :
    readPairs name second readSecond ('[' :: cs) =
      match readItems (readPair name second readSecond) (cs.length + 1) true cs with
      | .error e => .error e
      | .ok (xs, rest) => (closeArray rest).map fun rest => (xs, rest) := by
  rw [readPairs]
  rfl

/-- A list of pairs is read back if their second parts are. -/
theorem reads_pairs (hsecond : second ≠ kindKey) (enc : β → Json) {ps : List (Text × β)}
    (h : ∀ p ∈ ps, Reads readSecond (' ' :: prettyAt (level + 2) (enc p.2)) p.2) (name : Text) :
    Reads (readPairs name second readSecond)
      (prettyAt level (.array (ps.map fun p => ofPair second p.1 (enc p.2)))) ps := by
  intro rest
  have hitems := readItems_arrayRest (fun p : Text × β => ofPair second p.1 (enc p.2))
    (fun p hp => reads_pair hsecond (h p hp) name p.1)
    (fun p _ => ⟨'\x7b', _, rfl, by decide⟩) rest
  rw [prettyAt_array, List.cons_append, readPairs_bracket, hitems]
  rfl

end Pair

end Json

open Json

theorem Token.parseAll_pretty (ts : List Token) :
    Token.parseAll (Command.prettyLine (ts.map Token.toJson)) = .ok ts := by
  have hvalue : ∀ p ∈ ts.map fun t => (t.kind, t.value),
      Reads readText (' ' :: prettyAt 2 (.string p.2)) p.2 := fun p _ => reads_text 2 p.2
  have hkey : valueKey ≠ kindKey := by decide
  have hreads := reads_pairs hkey Json.string hvalue "Token".toList
  rw [List.map_map] at hreads
  have hwhole := whole_of_reads hreads ['\n'] rfl
  have hback : (ts.map fun t => (t.kind, t.value)).map (fun p => Token.mk p.1 p.2) = ts := by
    rw [List.map_map]
    exact List.map_id ts
  calc Token.parseAll (Command.prettyLine (ts.map Token.toJson))
    _ = (Except.ok (ts.map fun t => (t.kind, t.value))).map fun ps =>
        ps.map fun p => Token.mk p.1 p.2 := congrArg (Except.map _) hwhole
    _ = .ok ts := congrArg Except.ok hback

/-- What a node holds beside its kind. -/
def Node.content : Node → NodeContent
  | .scalar _ t => .text t
  | .composite _ ns => .nodes ns

def NodeContent.toJson : NodeContent → Json
  | .text t => .string t
  | .nodes ns => .array (Node.allToJson ns)

theorem Node.toJson_eq (n : Node) : n.toJson = ofPair contentKey n.kind n.content.toJson := by
  cases n <;> rw [Node.toJson] <;> rfl

theorem Node.ofParts_content (n : Node) : Node.ofParts n.kind n.content = n := by
  cases n <;> rfl

theorem Node.ofJson?_ofPair {kind : Text} {j : Json} {c : NodeContent}
    (h : NodeContent.ofJson? j = some c) :
    Node.ofJson? (ofPair contentKey kind j) = some (Node.ofParts kind c) := by
  have hkey : contentKey ≠ kindKey := by decide
  simp [ofPair, Node.ofJson?, Node.partsOf?, hkey, h]

mutual

theorem Node.ofJson?_toJson : (n : Node) → Node.ofJson? n.toJson = some n
  | .scalar kind t => by
    rw [Node.toJson_eq]
    refine Node.ofJson?_ofPair (c := .text t) ?_
    rw [Node.content, NodeContent.toJson, NodeContent.ofJson?]
  | .composite kind ns => by
    rw [Node.toJson_eq]
    refine Node.ofJson?_ofPair (c := .nodes ns) ?_
    rw [Node.content, NodeContent.toJson, NodeContent.ofJson?, Node.allOfJson?_allToJson ns]
    rfl

theorem Node.allOfJson?_allToJson : (ns : List Node) →
    Node.allOfJson? (Node.allToJson ns) = some ns
  | [] => rfl
  | n :: ns => by
    rw [Node.allToJson, Node.allOfJson?, Node.ofJson?_toJson n, Node.allOfJson?_allToJson ns]

end

theorem NodeContent.ofJson?_toJson (c : NodeContent) : NodeContent.ofJson? c.toJson = some c := by
  cases c with
  | text t => rfl
  | nodes ns =>
    rw [NodeContent.toJson, NodeContent.ofJson?, Node.allOfJson?_allToJson]
    rfl

mutual

/-- There are no numbers in a node, and its JSON nests as deep as it says. -/
theorem Node.nests_toJson : (n : Node) → {d : Nat} → n.toJson.depth ≤ d → Nests d n.toJson
  | .scalar kind t, d, h => by
    rw [Node.toJson_eq, depth_ofPair] at h
    obtain ⟨k, rfl⟩ : ∃ k, d = k + 1 := ⟨d - 1, by omega⟩
    rw [Node.toJson_eq, nests_ofPair]
    exact .string t
  | .composite kind ns, d, h => by
    rw [Node.toJson_eq, depth_ofPair, Node.content, NodeContent.toJson, depth] at h
    obtain ⟨k, rfl⟩ : ∃ k, d = k + 2 := ⟨d - 2, by omega⟩
    rw [Node.toJson_eq, nests_ofPair]
    exact .array (Node.nests_allToJson ns (by omega))

theorem Node.nests_allToJson : (ns : List Node) → {d : Nat} →
    depthOfItems (Node.allToJson ns) ≤ d → ∀ j ∈ Node.allToJson ns, Nests d j
  | [], d, h => by
    intro j hj
    cases hj
  | n :: ns, d, h => by
    rw [Node.allToJson, depthOfItems] at h
    rw [Node.allToJson]
    exact List.forall_mem_cons.2
      ⟨Node.nests_toJson n (by omega), Node.nests_allToJson ns (by omega)⟩

end

theorem Json.reads_content {c : NodeContent} (h : Nests 125 c.toJson) (level : Nat) :
    Reads readContent (' ' :: prettyAt level c.toJson) c := by
  intro rest
  have hread : readValue (depthLimit - 2) (' ' :: prettyAt level c.toJson ++ rest) =
      .ok (c.toJson, rest) := by
    rw [List.cons_append]
    exact (readValue_space 125 _).trans (reads_prettyAt h level rest)
  rw [readContent, hread]
  dsimp only
  rw [NodeContent.ofJson?_toJson]

theorem Node.parseAll_pretty {ns : List Node} (h : ∀ n ∈ ns, Nests 126 n.toJson) :
    Node.parseAll (Command.prettyLine (ns.map Node.toJson)) = .ok ns := by
  have hcontent : ∀ p ∈ ns.map fun n => (n.kind, n.content),
      Reads readContent (' ' :: prettyAt 2 p.2.toJson) p.2 := by
    intro p hp
    obtain ⟨n, hn, rfl⟩ := List.mem_map.1 hp
    -- the object around a content is one of the levels, and the list of nodes another
    have hn := h n hn
    rw [Node.toJson_eq, nests_ofPair] at hn
    exact reads_content hn 2
  have hkey : contentKey ≠ kindKey := by decide
  have hreads := reads_pairs hkey NodeContent.toJson hcontent "Node".toList
  have hpairs : (ns.map fun n => (n.kind, n.content)).map
      (fun p => ofPair contentKey p.1 p.2.toJson) = ns.map Node.toJson := by
    rw [List.map_map]
    exact List.map_congr_left fun n _ => (Node.toJson_eq n).symm
  rw [hpairs] at hreads
  have hwhole := whole_of_reads hreads ['\n'] rfl
  have hback : (ns.map fun n => (n.kind, n.content)).map (fun p => Node.ofParts p.1 p.2) = ns := by
    rw [List.map_map]
    exact (List.map_congr_left fun n _ => Node.ofParts_content n).trans (List.map_id ns)
  calc Node.parseAll (Command.prettyLine (ns.map Node.toJson))
    _ = (Except.ok (ns.map fun n => (n.kind, n.content))).map fun ps =>
        ps.map fun p => Node.ofParts p.1 p.2 := congrArg (Except.map _) hwhole
    _ = .ok ns := congrArg Except.ok hback

/-- Text, or a node with texts in it. -/
inductive Node.Flat : Node → Prop
  | scalar (kind t : Text) : Flat (.scalar kind t)
  | composite (kind : Text) {ns : List Node} : (∀ n ∈ ns, ∃ k t, n = .scalar k t) →
      Flat (.composite kind ns)

theorem Node.Flat.depth_le {n : Node} (h : n.Flat) : n.toJson.depth ≤ 3 := by
  cases h with
  | scalar kind t =>
    rw [Node.toJson_eq, depth_ofPair]
    exact (by decide : 0 + 1 ≤ 3)
  | @composite kind ns hns =>
    have hitems : depthOfItems (Node.allToJson ns) ≤ 1 := by
      induction ns with
      | nil => exact Nat.zero_le 1
      | cons n ns ih =>
        obtain ⟨⟨k, t, rfl⟩, hrest⟩ := List.forall_mem_cons.1 hns
        rw [Node.allToJson, depthOfItems, Node.toJson_eq, depth_ofPair]
        exact Nat.max_le.2 ⟨Nat.le_refl 1, ih hrest⟩
    rw [Node.toJson_eq, depth_ofPair, Node.content, NodeContent.toJson, depth]
    omega

theorem Directive.taken_flat (c : TokenCursor) (t : Token) : (Directive.taken c t).node.Flat := by
  unfold Directive.taken
  split
  · cases c.alt? with
    | some next => exact .composite _ (by simp)
    | none => exact .composite _ (by simp)
  · exact .scalar _ _

namespace Step

theorem variableNode_flat (definition : Text) : (variableNode definition).Flat :=
  .composite _ (by simp)

theorem builtinNode?_flat {t : Token} {n : Node} (h : builtinNode? t = some n) : n.Flat := by
  unfold builtinNode? at h
  split_ifs at h <;> obtain rfl := Option.some.inj h
  · exact .scalar _ _
  · exact .scalar _ _
  · exact variableNode_flat t.value

/-- A node of the parser is flat, whatever the tokens are. -/
theorem node_flat {r : Registry} (hr : r.Standard) {c : TokenCursor} {s : Step}
    (hs : at? r c = some s) {n : Node} (hn : s.node = some n) : n.Flat := by
  obtain ⟨t, ht, rfl⟩ := Option.map_eq_some_iff.1 hs
  cases hbuiltin : builtinNode? t with
  | some m =>
    rw [hbuiltin] at hn
    obtain rfl := Option.some.inj hn
    exact builtinNode?_flat hbuiltin
  | none =>
    rw [hbuiltin] at hn
    dsimp only at hn
    -- which directive answers does not matter
    rw [Registry.parse?_eq hr ht] at hn
    by_cases hk : t.kind ∈ r.keywords
    · rw [if_pos hk] at hn
      obtain rfl := Option.some.inj hn
      exact Directive.taken_flat c t
    · rw [if_neg hk] at hn
      dsimp only [unclaimed] at hn
      split at hn
      · obtain rfl := Option.some.inj hn
        exact .scalar _ _
      · cases hn

end Step

theorem parseFrom_flat {r : Registry} (hr : r.Standard) (ts : List Token) (i : Nat) :
    ∀ n ∈ (parseFrom r ts i).value, n.Flat := by
  -- on the number of tokens left
  induction hk : ts.length - i using Nat.strongRecOn generalizing i with
  | _ k ih =>
    by_cases hlt : i < ts.length
    · obtain ⟨s, hs⟩ := at?_isSome (r := r) hlt
      have hpos := Step.taken_pos hs
      rw [parseFrom_step hs (.of_le (at?_end_le hr hs))]
      intro n hn
      rcases List.mem_append.1 hn with hn | hn
      · exact Step.node_flat hr hs (Option.mem_toList.1 hn)
      · exact ih _ (by omega) _ rfl n hn
    · rw [parseFrom_end (Nat.le_of_not_lt hlt)]
      simp

theorem nodesOf_flat {r : Registry} (hr : r.Standard) (source : Text) :
    ∀ n ∈ (nodesOf r source).value, n.Flat :=
  parseFrom_flat hr _ 0

namespace Command

variable {w : Workspace} {file : Path}

theorem withSettings_output {root : Path} {f : Settings → Logged (Except Fault Text)}
    (h : (withSettings w root f).value.fault = none) :
    ∃ s t, (f s).value = .ok t ∧ (withSettings w root f).value.output = t := by
  unfold withSettings at h ⊢
  cases hload : Settings.load w root with
  | error fault =>
    rw [hload] at h
    cases h
  | ok s =>
    rw [hload] at h
    dsimp only at h ⊢
    cases hdone : (f s).value with
    | error fault =>
      rw [hdone] at h
      cases h
    | ok t => exact ⟨s, t, hdone, rfl⟩

theorem tokens_output (h : (Request.run w (.tokens file)).value.fault = none) :
    ∃ source, w.read file = .ok source ∧ (Request.run w (.tokens file)).value.output =
      prettyLine ((tokenize Registry.builtin source).value.map Token.toJson) := by
  obtain ⟨s, t, ht, houtput⟩ := withSettings_output h
  cases hread : w.read file with
  | error fault =>
    rw [hread] at ht
    cases ht
  | ok source =>
    rw [hread] at ht
    exact ⟨source, rfl, houtput.trans (Except.ok.inj ht).symm⟩

theorem nodes_output (h : (Request.run w (.nodes file)).value.fault = none) :
    ∃ source, w.read file = .ok source ∧ (Request.run w (.nodes file)).value.output =
      prettyLine ((nodesOf Registry.builtin source).value.map Node.toJson) := by
  obtain ⟨s, t, ht, houtput⟩ := withSettings_output h
  cases hread : w.read file with
  | error fault =>
    rw [hread] at ht
    cases ht
  | ok source =>
    rw [hread] at ht
    exact ⟨source, rfl, houtput.trans (Except.ok.inj ht).symm⟩

/-- Tokens and nodes are read back from what is printed of them: any tokens, any nodes whose JSON nests
no deeper than the reader allows, and so those of every document, from all that a command prints. -/
theorem printed_reads_back :
    (∀ ts : List Token, Token.parseAll (prettyLine (ts.map Token.toJson)) = .ok ts) ∧
    (∀ ns : List Node, (Json.array (ns.map Node.toJson)).depth ≤ 127 →
      Node.parseAll (prettyLine (ns.map Node.toJson)) = .ok ns) ∧
    (∀ source, let ts := (tokenize Registry.builtin source).value
      let ns := (nodesOf Registry.builtin source).value
      Token.parseAll (prettyLine (ts.map Token.toJson)) = .ok ts ∧
        Node.parseAll (prettyLine (ns.map Node.toJson)) = .ok ns) ∧
    ∀ (w : Workspace) (file : Path),
      ((Request.run w (.tokens file)).value.fault = none → ∃ source, w.read file = .ok source ∧
        Token.parseAll (Request.run w (.tokens file)).value.output =
          .ok (tokenize Registry.builtin source).value) ∧
      ((Request.run w (.nodes file)).value.fault = none → ∃ source, w.read file = .ok source ∧
        Node.parseAll (Request.run w (.nodes file)).value.output =
          .ok (nodesOf Registry.builtin source).value) := by
  have hdocument (source : Text) : Node.parseAll (prettyLine
      ((nodesOf Registry.builtin source).value.map Node.toJson)) =
        .ok (nodesOf Registry.builtin source).value := by
    -- the nodes of a document are flat, and nest less deep than the reader allows
    apply Node.parseAll_pretty
    intro n hn
    have hdepth := (nodesOf_flat Registry.builtin_standard source n hn).depth_le
    exact n.nests_toJson (by omega)
  refine ⟨Token.parseAll_pretty, ?_, ?_, ?_⟩
  · intro ns hns
    apply Node.parseAll_pretty
    intro n hn
    have hdepth := Json.depth_le_of_mem (List.mem_map_of_mem hn : n.toJson ∈ ns.map Node.toJson)
    rw [Json.depth] at hns
    exact n.nests_toJson (by omega)
  · exact fun source => ⟨Token.parseAll_pretty _, hdocument source⟩
  · intro w file
    constructor
    · intro h
      obtain ⟨source, hread, houtput⟩ := tokens_output h
      exact ⟨source, hread, by rw [houtput, Token.parseAll_pretty]⟩
    · intro h
      obtain ⟨source, hread, houtput⟩ := nodes_output h
      exact ⟨source, hread, by rw [houtput, hdocument]⟩

/-- Nodes with text that has to be escaped, with no children, and within each other. -/
def deepNodes : List Node :=
  [.composite "a".toList [], .scalar [] ['"', '\\', '\n', Char.ofNat 1, Char.ofNat 0x1F600],
    .composite "b".toList [.composite [] [.scalar "content".toList "[]".toList]]]

/-- A directory with one document. -/
def oneDocument : Workspace where
  tree := {
    entries := [(["a.sphst".toList], .file (.text "title A \"b\"\nvar x 1\n".toList))]
    nodup := by decide
    named := by decide
    closed := by decide }
  home := []

theorem printed_reads_back_deep :
    (Json.array (deepNodes.map Node.toJson)).depth ≤ 127 ∧
    Node.parseAll (prettyLine (deepNodes.map Node.toJson)) = .ok deepNodes ∧
    (Request.run oneDocument (.tokens ⟨"a.sphst".toList⟩)).value.fault = none ∧
    (Request.run oneDocument (.nodes ⟨"a.sphst".toList⟩)).value.fault = none ∧
    ∃ source, oneDocument.read ⟨"a.sphst".toList⟩ = .ok source ∧
      Node.parseAll (Request.run oneDocument (.nodes ⟨"a.sphst".toList⟩)).value.output =
        .ok (nodesOf Registry.builtin source).value := by
  obtain ⟨-, hnodes, -, hcommands⟩ := printed_reads_back
  have hdepth : (Json.array (deepNodes.map Node.toJson)).depth ≤ 127 := by decide
  have htokens : (Request.run oneDocument (.tokens ⟨"a.sphst".toList⟩)).value.fault = none := by
    decide +kernel
  have hprinted : (Request.run oneDocument (.nodes ⟨"a.sphst".toList⟩)).value.fault = none := by
    decide +kernel
  exact ⟨hdepth, hnodes deepNodes hdepth, htokens, hprinted, (hcommands _ _).2 hprinted⟩

end Command
end Folio
