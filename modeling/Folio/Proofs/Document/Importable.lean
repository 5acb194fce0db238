import Folio.Document.Listing
import Folio.Proofs.Document.Keyword

namespace Folio

namespace Directive

variable {d : Directive} {c : TokenCursor} {t : Token} {p : Parsed}

theorem Standard.keyword_ne (hd : d.Standard) : d.keyword ≠ Kind.importable := by
  intro h
  have hfree := (keyword_free d.keyword hd.keyword_mem).1
  rw [h] at hfree
  exact hfree (by decide)

/-- The node of a standard directive has its keyword for a kind. -/
theorem Standard.kind_of_parse (hd : d.Standard) (hp : d.parse t c = some p) :
    p.node.kind = d.keyword := by
  have hscalar {keyword : Text} (h : parseScalar keyword t c = some p) : p.node.kind = keyword := by
    unfold parseScalar at h
    split at h
    · rw [← Option.some.inj h]
      rfl
    · cases h
  cases hd with
  | heading level => exact hscalar hp
  | date => exact hscalar hp
  | markdown => exact hscalar hp
  | image =>
    by_cases hk : t.kind = Kind.image
    · rw [image_parse hk] at hp
      obtain ⟨source, _, rfl⟩ := Option.map_eq_some_iff.1 hp
      cases c.alt? <;> rfl
    · simp [Directive.image, hk] at hp

end Directive

namespace Step

variable {r : Registry} {c : TokenCursor} {t : Token} {s : Step}

theorem kind_of_builtinNode? {n : Node} (h : builtinNode? t = some n) : n.kind = t.kind := by
  unfold builtinNode? at h
  split at h
  · rw [← Option.some.inj h]
    rfl
  · split at h
    · rw [← Option.some.inj h]
      rfl
    · split at h
      · rename_i hk
        rw [← Option.some.inj h, hk]
        rfl
      · cases h

/-- A node has the flag exactly if its token has. -/
theorem importable_at? (hr : r.Standard) (ht : c.peek? 0 = some t) (hs : at? r c = some s) :
    s.node.any (fun n => n.kind = Kind.importable) = decide (t.kind = Kind.importable) := by
  unfold at? at hs
  rw [ht, Option.map_some] at hs
  obtain rfl := Option.some.inj hs
  cases hb : builtinNode? t with
  | some n => simp [kind_of_builtinNode? hb]
  | none =>
    have hne : t.kind ≠ Kind.importable := by
      intro hk
      rw [builtinNode?, if_pos (by rw [hk]; decide)] at hb
      cases hb
    dsimp only
    rw [decide_eq_false hne]
    cases hparse : r.parse? c with
    | some p =>
      obtain ⟨d, hd, hdparse⟩ : ∃ d ∈ r, d.parse t c = some p := by
        unfold Registry.parse? at hparse
        rw [ht] at hparse
        exact List.exists_of_findSome?_eq_some hparse
      have hkind := (hr d hd).kind_of_parse hdparse
      simp [hkind, (hr d hd).keyword_ne]
    | none =>
      have htext : Kind.text ≠ Kind.importable := by decide
      unfold unclaimed
      dsimp only
      split
      · exact decide_eq_false htext
      · rfl

end Step

variable {r : Registry} {ts : List Token}

theorem importable_parseFrom (hr : r.Standard) (i : Nat) :
    (parseFrom r ts i).value.any (fun n => n.kind = Kind.importable) =
      (ts.drop i).any fun t => t.kind = Kind.importable := by
  -- on the number of tokens left
  induction hk : ts.length - i using Nat.strongRecOn generalizing i with
  | _ k ih =>
    by_cases hlt : i < ts.length
    · obtain ⟨s, hs⟩ := at?_isSome (r := r) hlt
      have ht : (TokenCursor.mk ts i).peek? 0 = some ts[i] := List.getElem?_eq_getElem hlt
      have hnode : s.node.toList.any (fun n => n.kind = Kind.importable) =
          decide (ts[i].kind = Kind.importable) := by
        rw [← Step.importable_at? hr ht hs]
        cases s.node <;> simp
      have hpos := Step.taken_pos hs
      rw [parseFrom_step hs (.of_le (at?_end_le hr hs)), List.any_append, hnode,
        ih _ (by omega) _ rfl, List.drop_eq_getElem_cons hlt, List.any_cons]
      rcases Step.at?_taken hr hs with h | ⟨h, hsome⟩
      · rw [h]
      · -- the second token is an alternative text
        have hnext := alt?_isSome_lt hsome
        have halt : ts[i + 1].kind = Kind.alt := by
          unfold TokenCursor.alt? TokenCursor.peek? at hsome
          rw [List.getElem?_eq_getElem hnext] at hsome
          refine Decidable.byContradiction fun hne => ?_
          simp [Option.filter, hne] at hsome
        have hne : ¬ ts[i + 1].kind = Kind.importable := by
          rw [halt]
          decide
        rw [h, List.drop_eq_getElem_cons hnext, List.any_cons, decide_eq_false hne, Bool.false_or]
    · rw [parseFrom_end (Nat.le_of_not_lt hlt), List.drop_eq_nil_of_le (Nat.le_of_not_lt hlt)]
      rfl

/-- What a listing finds in the text of a document is what its page says. -/
theorem Listing.declaresImportable_eq (source : Text) : declaresImportable source =
    (nodesOf Registry.builtin source).value.any fun n => n.kind = Kind.importable := by
  have hnodes : (nodesOf Registry.builtin source).value =
      (parseFrom Registry.builtin (tokenize Registry.builtin source).value 0).value := rfl
  rw [hnodes, importable_parseFrom Registry.builtin_standard, List.drop_zero]
  rfl

end Folio
