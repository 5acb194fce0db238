import Folio.Proofs.Document.Standard

namespace Folio

namespace Directive

variable {d : Directive} {c : TokenCursor} {t : Token}

theorem Standard.keyword_mem (hd : d.Standard) : d.keyword ∈ Registry.builtin.keywords := by
  cases hd with
  | heading level =>
    -- the level counts as the nearest one from one to six
    obtain ⟨n, hn, hlevel⟩ : ∃ n ∈ List.range 6, clampLevel (n + 1) = clampLevel level := by
      refine ⟨clampLevel level - 1, ?_, ?_⟩ <;> unfold clampLevel
      · rw [List.mem_range]
        omega
      · omega
    rw [Registry.keywords, Registry.builtin, List.map_append, List.map_map]
    refine List.mem_append_left _ (List.mem_map.2 ⟨n, hn, ?_⟩)
    change headingKeyword (n + 1) = headingKeyword level
    unfold headingKeyword
    rw [hlevel]
  | date => decide
  | image => decide
  | markdown => decide

/-- No keyword is a kind that the tokens of other constructs have. -/
theorem keyword_free : ∀ k ∈ Registry.builtin.keywords,
    k ∉ Kind.flags ∧ k ∉ [Kind.importKind, Kind.frontmatter, Kind.script] ∧
      k ≠ Kind.variableKind ∧ k ≠ Kind.alt ∧ k ≠ Kind.text := by decide

/-- The node of a token with a keyword for its kind, and how many tokens it takes: an image takes the
alternative text after it. -/
def taken (c : TokenCursor) (t : Token) : Parsed :=
  if t.kind = Kind.image then
    match c.alt? with
    | some next => ⟨2, .composite Kind.image
        [.scalar Kind.imageSource t.value, .scalar Kind.imageAlt next.value]⟩
    | none => ⟨1, .composite Kind.image [.scalar Kind.imageSource t.value]⟩
  else ⟨1, .scalar t.kind t.value⟩

theorem Standard.parse_eq (hd : d.Standard) (ht : c.peek? 0 = some t) :
    d.parse t c = if t.kind = d.keyword then some (taken c t) else none := by
  have hvalue : c.value? 0 = some t.value := by rw [TokenCursor.value?, ht, Option.map_some]
  have hscalar {keyword : Text} (hne : keyword ≠ Kind.image) : parseScalar keyword t c =
      if t.kind = keyword then some (taken c t) else none := by
    unfold parseScalar taken
    split
    · rename_i hk
      rw [if_neg (by rw [hk]; exact hne), hvalue, hk]
      rfl
    · rfl
  cases hd with
  | heading level =>
    refine hscalar fun h => ?_
    have hhead : (headingKeyword level).head? = some 't' := by
      unfold headingKeyword
      split <;> rfl
    rw [h] at hhead
    cases hhead
  | date => exact hscalar (by decide)
  | markdown => exact hscalar (by decide)
  | image =>
    by_cases hk : t.kind = Kind.image
    · rw [image_parse hk, hvalue, Option.map_some, taken, if_pos hk]
      exact (if_pos hk).symm
    · simp [Directive.image, hk]

end Directive

open Directive

variable {r : Registry} {c : TokenCursor} {t : Token}

theorem Registry.Standard.keyword_mem (hr : r.Standard) {k : Text} (hk : k ∈ r.keywords) :
    k ∈ builtin.keywords := by
  obtain ⟨d, hd, rfl⟩ := List.mem_map.1 hk
  exact (hr d hd).keyword_mem

/-- A registry of the library parses the tokens that have one of its keywords. -/
theorem Registry.parse?_eq (hr : r.Standard) (ht : c.peek? 0 = some t) :
    r.parse? c = if t.kind ∈ r.keywords then some (taken c t) else none := by
  unfold parse? keywords
  rw [ht]
  dsimp only
  induction r with
  | nil => rfl
  | cons d r ih =>
    obtain ⟨hd, hrest⟩ := List.forall_mem_cons.1 hr
    rw [List.findSome?_cons, hd.parse_eq ht, ih hrest, List.map_cons]
    by_cases hk : t.kind = d.keyword <;> simp [hk]

end Folio
