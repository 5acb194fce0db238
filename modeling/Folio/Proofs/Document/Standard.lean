import Folio.Document.Outline

namespace Folio

/-- A directive that comes with the library. -/
inductive Directive.Standard : Directive → Prop
  | heading (level : Nat) : Standard (heading level)
  | date : Standard date
  | image : Standard image
  | markdown : Standard markdown

def Registry.Standard (r : Registry) : Prop := ∀ d ∈ r, d.Standard

theorem Registry.builtin_standard : builtin.Standard := by
  intro d hd
  rcases List.mem_append.1 hd with hd | hd
  · obtain ⟨level, _, rfl⟩ := List.mem_map.1 hd
    exact .heading (level + 1)
  · simp only [List.mem_cons, List.not_mem_nil, or_false] at hd
    rcases hd with rfl | rfl | rfl
    · exact .date
    · exact .image
    · exact .markdown

namespace TokenCursor

/-- The alternative text right after the token of a cursor. -/
def alt? (c : TokenCursor) : Option Token := (c.peek? 1).filter fun t => t.kind = Kind.alt

end TokenCursor

namespace Directive

variable {c c' : TokenCursor} {t : Token}

theorem parseScalar_congr (keyword : Text) (h : c.peek? 0 = c'.peek? 0) :
    parseScalar keyword t c = parseScalar keyword t c' := by
  unfold parseScalar TokenCursor.value?
  rw [h]

theorem image_parse (h : t.kind = Kind.image) :
    image.parse t c = (c.value? 0).map fun source =>
      match c.alt? with
      | some next => ⟨2, .composite Kind.image
          [.scalar Kind.imageSource source, .scalar Kind.imageAlt next.value]⟩
      | none => ⟨1, .composite Kind.image [.scalar Kind.imageSource source]⟩ := by
  unfold image TokenCursor.alt?
  simp only [h, if_true]
  cases c.peek? 1 with
  | none => rfl
  | some next =>
    by_cases hk : next.kind = Kind.alt <;> simp [hk, Option.filter]

/-- A standard directive sees its token and an alternative text after it. -/
theorem Standard.parse_congr {d : Directive} (hd : d.Standard) (h : c.peek? 0 = c'.peek? 0)
    (halt : c.alt? = c'.alt?) : d.parse t c = d.parse t c' := by
  cases hd with
  | heading level => exact parseScalar_congr _ h
  | date => exact parseScalar_congr _ h
  | markdown => exact parseScalar_congr _ h
  | image =>
    by_cases hk : t.kind = Kind.image
    · rw [image_parse hk, image_parse hk, TokenCursor.value?, TokenCursor.value?, h, halt]
    · simp [Directive.image, hk]

/-- A standard directive takes its token, and the alternative text after it if there is one. -/
theorem Standard.parse_jumped {d : Directive} (hd : d.Standard) {p : Parsed}
    (hp : d.parse t c = some p) : p.jumped = 1 ∨ (p.jumped = 2 ∧ c.alt?.isSome) := by
  have hscalar (keyword : Text) (h : parseScalar keyword t c = some p) : p.jumped = 1 := by
    unfold parseScalar at h
    split at h
    · rw [← Option.some.inj h]
    · cases h
  cases hd with
  | heading level => exact Or.inl (hscalar _ hp)
  | date => exact Or.inl (hscalar _ hp)
  | markdown => exact Or.inl (hscalar _ hp)
  | image =>
    by_cases hk : t.kind = Kind.image
    · rw [image_parse hk] at hp
      obtain ⟨source, _, rfl⟩ := Option.map_eq_some_iff.1 hp
      cases c.alt? <;> simp
    · simp [Directive.image, hk] at hp

end Directive

namespace Step

variable {r : Registry} {c c' : TokenCursor}

theorem at?_congr (hr : r.Standard) (h : c.peek? 0 = c'.peek? 0) (halt : c.alt? = c'.alt?) :
    at? r c = at? r c' := by
  have hparse : r.parse? c = r.parse? c' := by
    unfold Registry.parse?
    rw [h]
    cases c'.peek? 0 with
    | none => rfl
    | some t =>
      dsimp only
      have hmap : r.map (fun d => d.parse t c) = r.map fun d => d.parse t c' :=
        List.map_congr_left fun d hd => (hr d hd).parse_congr h halt
      simpa only [List.findSome?_map, Function.id_comp] using congrArg (List.findSome? id) hmap
  unfold at?
  rw [h, hparse]

theorem at?_taken (hr : r.Standard) {s : Step} (hs : at? r c = some s) :
    s.taken = 1 ∨ (s.taken = 2 ∧ c.alt?.isSome) := by
  unfold at? at hs
  obtain ⟨t, ht, rfl⟩ := Option.map_eq_some_iff.1 hs
  split
  · exact Or.inl rfl
  · split
    · rename_i p hp
      unfold Registry.parse? at hp
      rw [ht] at hp
      obtain ⟨d, hd, hparse⟩ := List.exists_of_findSome?_eq_some hp
      rcases (hr d hd).parse_jumped hparse with h | ⟨h, halt⟩
      · exact Or.inl (by simp [h])
      · exact Or.inr ⟨by simp [h], halt⟩
    · exact Or.inl rfl

end Step

section Parse

variable {r : Registry} {ts us : List Token} {i : Nat}

theorem parseFrom_end (h : ts.length ≤ i) : (parseFrom r ts i).value = [] := by
  unfold parseFrom
  split
  · rfl
  · rename_i t ht
    rw [List.getElem?_eq_none h] at ht
    cases ht

theorem parseFrom_at? {s : Step} (hs : Step.at? r ⟨ts, i⟩ = some s) :
    (parseFrom r ts i).value = if Addressable ts.length (i + s.taken) then
      s.node.toList ++ (parseFrom r ts (i + s.taken)).value else [] := by
  obtain ⟨t, ht, _⟩ := Option.map_eq_some_iff.1 hs
  rw [parseFrom]
  split
  · rename_i hnone
    cases ht.symm.trans hnone
  · split
    · rename_i hnone
      cases hs.symm.trans hnone
    · rename_i s' hs'
      obtain rfl : s = s' := Option.some.inj (hs.symm.trans hs')
      split <;> rfl

theorem parseFrom_step {s : Step} (hs : Step.at? r ⟨ts, i⟩ = some s)
    (hfits : Addressable ts.length (i + s.taken)) :
    (parseFrom r ts i).value = s.node.toList ++ (parseFrom r ts (i + s.taken)).value := by
  rw [parseFrom_at? hs, if_pos hfits]

theorem at?_isSome (h : i < ts.length) : ∃ s, Step.at? r ⟨ts, i⟩ = some s := by
  unfold Step.at? TokenCursor.peek?
  simp [h]

theorem alt?_isSome_lt (h : (TokenCursor.mk ts i).alt?.isSome) : i + 1 < ts.length := by
  unfold TokenCursor.alt? TokenCursor.peek? at h
  by_cases hlt : i + 1 < ts.length
  · exact hlt
  · simp [List.getElem?_eq_none (Nat.le_of_not_lt hlt)] at h

/-- No step goes past the last token. -/
theorem at?_end_le (hr : r.Standard) {s : Step} (hs : Step.at? r ⟨ts, i⟩ = some s) :
    i + s.taken ≤ ts.length := by
  obtain ⟨t, ht, _⟩ := Option.map_eq_some_iff.1 hs
  have hlt : i < ts.length := (List.getElem?_eq_some_iff.1 ht).1
  rcases Step.at?_taken hr hs with h | ⟨h, hsome⟩
  · omega
  · have hnext := alt?_isSome_lt hsome
    omega

/-- The second of two sequences is parsed as it is alone. -/
theorem parseFrom_append_right (hr : r.Standard) (j : Nat) :
    (parseFrom r (ts ++ us) (ts.length + j)).value = (parseFrom r us j).value := by
  -- on the number of tokens left
  induction hk : us.length - j using Nat.strongRecOn generalizing j with
  | _ k ih =>
    by_cases hlt : j < us.length
    · obtain ⟨s, hs⟩ := at?_isSome (r := r) hlt
      have hpeek (n : Nat) : (TokenCursor.mk (ts ++ us) (ts.length + j)).peek? n =
          (TokenCursor.mk us j).peek? n := by
        unfold TokenCursor.peek?
        rw [Nat.add_assoc]
        exact List.getElem?_append_right (Nat.le_add_right _ _) |>.trans
          (by rw [Nat.add_sub_cancel_left])
      have hs' : Step.at? r ⟨ts ++ us, ts.length + j⟩ = some s := by
        rw [← hs]
        exact Step.at?_congr hr (hpeek 0) (by rw [TokenCursor.alt?, hpeek 1, TokenCursor.alt?])
      have hpos := Step.taken_pos hs
      rw [parseFrom_step hs (.of_le (at?_end_le hr hs)),
        parseFrom_step hs' (.of_le (at?_end_le hr hs')), Nat.add_assoc, ih _ (by omega) _ rfl]
    · rw [parseFrom_end (Nat.le_of_not_lt hlt), parseFrom_end (by rw [List.length_append]; omega)]

/-- The nodes of two sequences of tokens are those of the one and those of the other. -/
theorem parseFrom_append (hr : r.Standard) (hus : ∀ t ∈ us.head?, t.kind ≠ Kind.alt)
    (hi : i ≤ ts.length) :
    (parseFrom r (ts ++ us) i).value = (parseFrom r ts i).value ++ (parseFrom r us 0).value := by
  -- on the tokens left of the first sequence
  induction hk : ts.length - i using Nat.strongRecOn generalizing i with
  | _ k ih =>
    by_cases hlt : i < ts.length
    · obtain ⟨s, hs⟩ := at?_isSome (r := r) hlt
      have hpeek : (TokenCursor.mk (ts ++ us) i).peek? 0 = (TokenCursor.mk ts i).peek? 0 :=
        List.getElem?_append_left hlt
      have halt : (TokenCursor.mk (ts ++ us) i).alt? = (TokenCursor.mk ts i).alt? := by
        unfold TokenCursor.alt? TokenCursor.peek?
        dsimp only
        by_cases hnext : i + 1 < ts.length
        · rw [List.getElem?_append_left hnext]
        · -- the next token, if any, is the first of the second sequence
          have hend : i + 1 = ts.length := by omega
          rw [hend, List.getElem?_append_right (Nat.le_refl _), Nat.sub_self, ← List.head?_eq_getElem?,
            List.getElem?_eq_none (Nat.le_refl _)]
          cases hu : us.head? with
          | none => rfl
          | some t => simp [Option.filter, hus t hu]
      have hs' : Step.at? r ⟨ts ++ us, i⟩ = some s := (Step.at?_congr hr hpeek halt).trans hs
      -- no node takes tokens of both sequences
      have hle := at?_end_le hr hs
      have hpos := Step.taken_pos hs
      rw [parseFrom_step hs (.of_le hle), parseFrom_step hs' (.of_le (at?_end_le hr hs')),
        ih _ (by omega) hle rfl, List.append_assoc]
    · obtain rfl : i = ts.length := by omega
      rw [parseFrom_end (Nat.le_refl _), List.nil_append]
      exact parseFrom_append_right hr 0

end Parse

end Folio
