import Mathlib.Data.List.Forall2
import Folio.Proofs.Document.Bundle
import Folio.Proofs.Document.Keyword

namespace Folio

/-- The tokens that a node is made of, with one space between the name of a variable and its value. -/
def Node.flatten (n : Node) : List Token :=
  if n.kind = Kind.image then
    ((n.childText? Kind.imageSource).map (Token.mk Kind.image)).toList ++
      ((n.childText? Kind.imageAlt).map (Token.mk Kind.alt)).toList
  else if n.kind = Kind.variableKind then
    match n.childText? Kind.variableName, n.childText? Kind.variableValue with
    | some name, some [] => [⟨Kind.variableKind, name⟩]
    | some name, some value => [⟨Kind.variableKind, name ++ ' ' :: value⟩]
    | _, _ => []
  else (n.text?.map (Token.mk n.kind)).toList

/-- Two tokens are the same but for the blanks between the name of a variable and its value. -/
inductive Token.Respaced : Token → Token → Prop
  | refl (t : Token) : Respaced t t
  | definition {name value gap gap' : Text} : (∀ c ∈ name, ¬ Text.isBlank c) →
      gap ≠ [] → (∀ c ∈ gap, Text.isBlank c) → gap' ≠ [] → (∀ c ∈ gap', Text.isBlank c) →
      Respaced ⟨Kind.variableKind, name ++ gap ++ value⟩ ⟨Kind.variableKind, name ++ gap' ++ value⟩

theorem Token.Respaced.eq {t u : Token} (h : Respaced t u) (ht : t.kind ≠ Kind.variableKind) :
    t = u := by
  cases h with
  | refl => rfl
  | definition _ _ _ _ _ => exact absurd rfl ht

/-- A node is made of these tokens, and of no others. -/
structure Node.MadeOf (n : Node) (ts : List Token) : Prop where
  kind : (ts.filter fun t => t.kind ≠ Kind.alt).map Token.kind = [n.kind]
  flatten : List.Forall₂ Token.Respaced n.flatten ts

namespace Node.MadeOf

variable {k v : Text}

theorem of_eq {n : Node} {ts : List Token} (hflatten : n.flatten = ts)
    (hkind : (ts.filter fun t => t.kind ≠ Kind.alt).map Token.kind = [n.kind]) : n.MadeOf ts :=
  ⟨hkind, by rw [hflatten]; exact List.forall₂_same.2 fun t _ => .refl t⟩

theorem scalar (hk : k ∉ [Kind.image, Kind.variableKind, Kind.alt]) :
    (Node.scalar k v).MadeOf [⟨k, v⟩] := by
  simp only [List.mem_cons, List.not_mem_nil, or_false, not_or] at hk
  obtain ⟨himage, hvariable, halt⟩ := hk
  refine of_eq ?_ (by simp [halt, Node.kind])
  unfold Node.flatten Node.kind
  rw [if_neg himage, if_neg hvariable]
  rfl

/-- What follows the blanks after the name of a variable is its value. -/
theorem variableNode (hv : Text.Trimmed v) :
    (Step.variableNode v).MadeOf [⟨Kind.variableKind, v⟩] := by
  have hkind : (Step.variableNode v).kind = Kind.variableKind := rfl
  refine ⟨by rw [hkind]; rfl, ?_⟩
  unfold Step.variableNode
  cases hs : Text.splitFirst? Text.isBlank v with
  | none => exact List.forall₂_same.2 fun t _ => .refl t
  | some parts =>
    obtain ⟨name, rest⟩ := parts
    obtain ⟨c, rfl, hc, hname⟩ := Text.splitFirst?_eq_some_iff.1 hs
    obtain ⟨hne, blanks, hrest, hblanks⟩ := hv.after_blank hc
    have hflatten : (Node.composite Kind.variableKind [.scalar Kind.variableName name,
        .scalar Kind.variableValue (Text.trim rest)]).flatten =
        [⟨Kind.variableKind, name ++ [' '] ++ Text.trim rest⟩] := by
      obtain ⟨d, ds, hd⟩ := List.exists_cons_of_ne_nil hne
      rw [hd, List.append_assoc]
      rfl
    have hvalue : name ++ c :: rest = name ++ c :: blanks ++ Text.trim rest := by
      rw [List.append_assoc, List.cons_append, ← hrest]
    dsimp only
    rw [hflatten, hvalue]
    have hspace : ∀ x ∈ [' '], Text.isBlank x := List.forall_mem_singleton.2 rfl
    have hgap : ∀ x ∈ c :: blanks, Text.isBlank x := List.forall_mem_cons.2 ⟨hc, hblanks⟩
    exact .cons (.definition hname (List.cons_ne_nil _ _) hspace (List.cons_ne_nil _ _) hgap) .nil

end Node.MadeOf

namespace Step

variable {r : Registry} {c : TokenCursor} {t : Token}

theorem at?_builtin (ht : c.peek? 0 = some t) {n : Node} (hn : builtinNode? t = some n) :
    at? r c = some ⟨some n, 1, false⟩ := by
  rw [at?, ht, Option.map_some, hn]

theorem at?_keyword (hr : r.Standard) (ht : c.peek? 0 = some t) (hk : t.kind ∈ r.keywords) :
    at? r c = some ⟨some (Directive.taken c t).node, max 1 (Directive.taken c t).jumped,
      (Directive.taken c t).jumped = 0⟩ := by
  obtain ⟨hflag, hplain, hvariable, _, _⟩ := Directive.keyword_free t.kind (hr.keyword_mem hk)
  have hbuiltin : builtinNode? t = none := by
    rw [builtinNode?, if_neg hflag, if_neg hplain, if_neg hvariable]
  rw [at?, ht, Option.map_some, hbuiltin, Registry.parse?_eq hr ht, if_pos hk]

theorem at?_text (hr : r.Standard) {v : Text} (ht : c.peek? 0 = some ⟨Kind.text, v⟩) :
    at? r c = some ⟨some (.scalar Kind.text v), 1, false⟩ := by
  have hk : Kind.text ∉ r.keywords := fun hk =>
    (Directive.keyword_free _ (hr.keyword_mem hk)).2.2.2.2 rfl
  have hbuiltin : builtinNode? ⟨Kind.text, v⟩ = none := rfl
  rw [at?, ht, Option.map_some, hbuiltin, Registry.parse?_eq hr ht, if_neg hk]
  rfl

end Step

variable {r : Registry}

/-- The first step of the parser takes all of a bundle. -/
theorem Bundle.exists_step (hr : r.Standard) {b : List Token} (hb : Bundle r b) :
    ∃ n s, Step.at? r ⟨b, 0⟩ = some s ∧ s.node = some n ∧ b.length ≤ s.taken ∧ n.MadeOf b := by
  cases hb with
  | @flag k hk =>
    have hfree : ∀ k ∈ Kind.flags, k ∉ [Kind.image, Kind.variableKind, Kind.alt] := by decide
    have hnode : Step.builtinNode? ⟨k, "true".toList⟩ = some (.scalar k "true".toList) := if_pos hk
    exact ⟨_, _, Step.at?_builtin rfl hnode, rfl, Nat.le_refl 1, .scalar (hfree k hk)⟩
  | @plain k v hk =>
    have hfree : ∀ k ∈ [Kind.importKind, Kind.frontmatter, Kind.script],
        k ∉ Kind.flags ∧ k ∉ [Kind.image, Kind.variableKind, Kind.alt] := by decide
    obtain ⟨hflag, hscalar⟩ := hfree k hk
    have hnode : Step.builtinNode? ⟨k, v⟩ = some (.scalar k v) := (if_neg hflag).trans (if_pos hk)
    exact ⟨_, _, Step.at?_builtin rfl hnode, rfl, Nat.le_refl 1, .scalar hscalar⟩
  | text =>
    exact ⟨_, _, Step.at?_text hr rfl, rfl, Nat.le_refl 1, .scalar (by decide)⟩
  | definition _ hv =>
    exact ⟨_, _, Step.at?_builtin rfl rfl, rfl, Nat.le_refl 1, .variableNode hv⟩
  | @directive k v hk =>
    refine ⟨_, _, Step.at?_keyword hr rfl hk, rfl, Nat.le_max_left _ _, ?_⟩
    obtain ⟨_, _, hvariable, halt, _⟩ := Directive.keyword_free k (hr.keyword_mem hk)
    unfold Directive.taken
    by_cases himage : k = Kind.image
    · -- no token comes after the image, so its node has no alternative text
      subst himage
      exact .of_eq rfl rfl
    · rw [if_neg himage]
      exact .scalar (by simp [himage, hvariable, halt])
  | captioned hk => exact ⟨_, _, Step.at?_keyword hr rfl hk, rfl, Nat.le_refl 2, .of_eq rfl rfl⟩

/-- A bundle becomes one node. -/
theorem Bundle.parse (hr : r.Standard) {b : List Token} (hb : Bundle r b) :
    ∃ n : Node, (parseTokens r b).value = [n] ∧ n.MadeOf b := by
  obtain ⟨n, s, hs, hnode, htaken, hmade⟩ := hb.exists_step hr
  refine ⟨n, ?_, hmade⟩
  rw [parseTokens, parseFrom_step hs (.of_le (at?_end_le hr hs)), hnode,
    parseFrom_end (by rwa [Nat.zero_add])]
  rfl

/-- Bundles become one node each. -/
theorem parse_bundles (hr : r.Standard) {bs : List (List Token)} (hbs : ∀ b ∈ bs, Bundle r b) :
    List.Forall₂ Node.MadeOf (parseTokens r bs.flatten).value bs := by
  induction bs with
  | nil =>
    rw [List.flatten_nil, parseTokens, parseFrom_end (Nat.le_refl 0)]
    exact .nil
  | cons b bs ih =>
    obtain ⟨hb, hrest⟩ := List.forall_mem_cons.1 hbs
    obtain ⟨n, hn, hmade⟩ := hb.parse hr
    -- the bundles that follow do not start with an alternative text, which `b` would take
    have hhead := (Bundle.alts_flatten hr hrest).head_ne
    have happend : (parseTokens r (b ++ bs.flatten)).value =
        (parseTokens r b).value ++ (parseTokens r bs.flatten).value :=
      parseFrom_append hr hhead (Nat.zero_le _)
    rw [List.flatten_cons, happend, hn]
    exact .cons hmade (ih hrest)

theorem Node.MadeOf.kinds {ns : List Node} {bs : List (List Token)}
    (h : List.Forall₂ Node.MadeOf ns bs) :
    ns.map Node.kind = (bs.flatten.filter fun t => t.kind ≠ Kind.alt).map Token.kind := by
  induction h with
  | nil => rfl
  | @cons n b ns bs hmade _ ih =>
    rw [List.map_cons, ih, List.flatten_cons, List.filter_append, List.map_append, hmade.kind]
    rfl

theorem Node.MadeOf.flattens {ns : List Node} {bs : List (List Token)}
    (h : List.Forall₂ Node.MadeOf ns bs) :
    List.Forall₂ Token.Respaced (ns.flatMap Node.flatten) bs.flatten := by
  induction h with
  | nil => exact .nil
  | cons hmade _ ih => exact List.rel_append hmade.flatten ih

/-- A node of any kind but two is the text of a token of its kind. -/
theorem Node.MadeOf.exists_scalar {n : Node} {ts : List Token} (h : n.MadeOf ts)
    (himage : n.kind ≠ Kind.image) (hvariable : n.kind ≠ Kind.variableKind) :
    ∃ v, n = .scalar n.kind v ∧ ⟨n.kind, v⟩ ∈ ts := by
  have hflatten := h.flatten
  rw [Node.flatten, if_neg himage, if_neg hvariable] at hflatten
  cases n with
  | composite k ns =>
    -- a node is made of at least one token
    cases hflatten
    have hkind := h.kind
    cases hkind
  | scalar k v =>
    obtain ⟨t, _, hrespaced, hnil, rfl⟩ := List.forall₂_cons_left_iff.1 hflatten
    cases hnil
    exact ⟨v, rfl, hrespaced.eq hvariable ▸ List.mem_cons_self⟩

theorem exists_scalar_of_mem {r : Registry} (hr : r.Standard) {source : Text} {n : Node}
    (hn : n ∈ (nodesOf r source).value) (himage : n.kind ≠ Kind.image)
    (hvariable : n.kind ≠ Kind.variableKind) :
    ∃ v, n = .scalar n.kind v ∧ ⟨n.kind, v⟩ ∈ (tokenize r source).value := by
  obtain ⟨bs, hbs, htokens⟩ := exists_bundles hr source
  have hmade := parse_bundles hr hbs
  rw [← htokens] at hmade
  obtain ⟨b, hb, hnb⟩ : ∃ b ∈ bs, n.MadeOf b := by
    obtain ⟨j, hj, rfl⟩ := List.getElem_of_mem hn
    have hjb : j < bs.length := hmade.length_eq ▸ hj
    exact ⟨bs[j], List.getElem_mem hjb, hmade.get hj hjb⟩
  obtain ⟨v, hv, ht⟩ := hnb.exists_scalar himage hvariable
  exact ⟨v, hv, htokens ▸ List.mem_flatten.2 ⟨b, hb, ht⟩⟩

/-- Of the tokens of a document, the alternative texts come right after images, and every other one
becomes one node of its kind; and the tokens can be written back from the nodes. -/
theorem parse_lossless (source : Text) :
    let ts := (tokenize Registry.builtin source).value
    let ns := (parseTokens Registry.builtin ts).value
    AltsFollowImages ts ∧
      ns.map Node.kind = (ts.filter fun t => t.kind ≠ Kind.alt).map Token.kind ∧
      List.Forall₂ Token.Respaced (ns.flatMap Node.flatten) ts := by
  have hr := Registry.builtin_standard
  obtain ⟨bs, hbs, htokens⟩ := exists_bundles hr source
  dsimp only
  rw [htokens]
  have hnodes := parse_bundles hr hbs
  exact ⟨Bundle.alts_flatten hr hbs, Node.MadeOf.kinds hnodes, Node.MadeOf.flattens hnodes⟩

end Folio
