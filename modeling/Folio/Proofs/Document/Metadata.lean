import Folio.Document.Frontmatter
import Folio.Proofs.Json.Values
import Folio.Proofs.Text.Lines

namespace Folio.Frontmatter

open Json Text

/-- A whole object from its opening to its closing brace. -/
def IsObject (t : Text) : Prop :=
  ∃ part ms, t = '\x7b' :: part ++ ['\x7d'] ∧ readValue depthLimit t = .ok (.object ms, [])

theorem take_before (before rest : Text) :
    (before ++ rest).take ((before ++ rest).length - rest.length) = before := by
  rw [List.length_append, Nat.add_sub_cancel]
  exact List.take_left

theorem readValue_object_append {o : Text} (rest : Text) (h : IsObject o) :
    ∃ ms, readValue depthLimit (o ++ rest) = .ok (.object ms, rest) := by
  obtain ⟨part, ms, rfl, hread⟩ := h
  rw [List.cons_append] at hread
  obtain ⟨part', hpart, hall⟩ := readValue_object hread
  obtain rfl : part = part' := List.append_cancel_right hpart
  refine ⟨ms, ?_⟩
  have h := hall rest
  simpa using h

/-- A capture is the first object after a marker, with the lines up to where it ends. -/
theorem capture?_eq_some_iff {lines : List Text} {o : Text} {n : Nat} :
    capture? lines = some (o, n) ↔
      ∃ lead rest, afterMarker? lines = some (lead ++ o ++ rest) ∧ (∀ c ∈ lead, isBlank c) ∧
        IsObject o ∧ n = 1 + (lead ++ o).count '\n' := by
  constructor
  · intro h
    unfold capture? at h
    cases ht : afterMarker? lines with
    | none =>
      rw [ht] at h
      cases h
    | some t =>
      simp only [ht] at h
      split at h
      · rename_i cs hbody
        split at h
        · rename_i ms rest hread
          obtain ⟨ho, hn⟩ := Prod.mk.inj (Option.some.inj h)
          rw [hbody] at hread ho
          obtain ⟨part, rfl, hall⟩ := readValue_object hread
          -- the text is cut before and after the object
          have hsplit : t = t.takeWhile isBlank ++ ('\x7b' :: part ++ ['\x7d']) ++ rest := by
            rw [List.append_assoc, List.append_assoc, List.singleton_append, List.cons_append,
              ← hbody, trimStart, List.takeWhile_append_dropWhile]
          have hobject : o = '\x7b' :: part ++ ['\x7d'] := by
            rw [← ho, ← List.singleton_append (l := rest), ← List.append_assoc, ← List.cons_append,
              take_before]
            rfl
          rw [hsplit, take_before, ← hobject] at hn
          rw [← hobject] at hsplit
          exact ⟨_, rest, congrArg some hsplit, fun c hc => List.all_eq_true.1 List.all_takeWhile c hc,
            ⟨part, ms, hobject, hobject ▸ hall []⟩, hn.symm⟩
        · cases h
      · cases h
  · rintro ⟨lead, rest, ht, hlead, hobject, rfl⟩
    obtain ⟨ms, hread⟩ := readValue_object_append rest hobject
    obtain ⟨part, _, ho, _⟩ := hobject
    have hbrace : ¬ isBlank '\x7b' := by decide
    have hbody : trimStart (lead ++ o ++ rest) = o ++ rest := by
      rw [trimStart, List.append_assoc, List.dropWhile_append_of_pos hlead, ho]
      exact List.dropWhile_cons_of_neg hbrace
    unfold capture?
    simp only [ht, hbody, hread, take_before]
    rw [ho]
    rfl

/-- What stands after the marker on a trimmed line. -/
def markerRest? (line : Text) : Option Text :=
  if line = Kind.frontmatter then some []
  else (stripPrefix? Kind.frontmatter line).bind (stripPrefix? [' '])

theorem afterMarker?_cons (l : Text) (ls : List Text) :
    afterMarker? (l :: ls) = (markerRest? (trim l)).map fun r => joinWith ['\n'] (r :: ls) := rfl

theorem mem_of_mem_markerRest? {line rest : Text} {c : Char} (h : markerRest? line = some rest)
    (hc : c ∈ rest) : c ∈ line := by
  unfold markerRest? at h
  split at h
  · obtain rfl := Option.some.inj h
    cases hc
  · obtain ⟨t, ht, hrest⟩ := Option.bind_eq_some_iff.1 h
    rw [stripPrefix?_eq_some_iff] at ht hrest
    rw [ht, hrest]
    simp [hc]

/-- A capture stays when lines follow, and when the last line loses a return at its end. -/
theorem capture?_closed {l l' : Text} {ls ms after : List Text} (hl : trim l' = trim l)
    (h : Closed ls ms) {o : Text} {n : Nat} (hc : capture? (l :: ls) = some (o, n)) :
    capture? (l' :: (ms ++ after)) = some (o, n) := by
  obtain ⟨lead, rest, ht, hlead, hobject, hn⟩ := capture?_eq_some_iff.1 hc
  rw [afterMarker?_cons] at ht
  obtain ⟨first, hfirst, htext⟩ := Option.map_eq_some_iff.1 ht
  obtain ⟨t, more, hmore, hclosed⟩ := h.joinWith_append ['\n'] first after
  suffices hprefix : ∃ rest', t = lead ++ o ++ rest' by
    obtain ⟨rest', rfl⟩ := hprefix
    refine capture?_eq_some_iff.2 ⟨lead, rest' ++ more, ?_, hlead, hobject, hn⟩
    rw [afterMarker?_cons, hl, hfirst, Option.map_some, hmore, List.append_assoc _ rest']
  rw [htext] at hclosed
  rcases hclosed with ht | ht
  · exact ⟨rest, ht.symm⟩
  · -- the return is not part of the object, which ends with a brace
    rcases List.eq_nil_or_concat rest with rfl | ⟨rest', c, rfl⟩
    · obtain ⟨part, _, rfl, _⟩ := hobject
      rw [List.append_nil, ← List.append_assoc] at ht
      cases (List.append_inj' ht rfl).2
    · rw [List.concat_eq_append, ← List.append_assoc] at ht
      exact ⟨rest', (List.append_inj' ht rfl).1.symm⟩

/-- A capture spans no more lines than there are. -/
theorem capture?_spanned {lines : List Text} {o : Text} {n : Nat}
    (hlines : ∀ l ∈ lines, '\n' ∉ l) (hc : capture? lines = some (o, n)) : n ≤ lines.length := by
  obtain ⟨lead, rest, ht, _, _, rfl⟩ := capture?_eq_some_iff.1 hc
  cases lines with
  | nil => cases ht
  | cons l ls =>
    rw [afterMarker?_cons] at ht
    obtain ⟨first, hfirst, htext⟩ := Option.map_eq_some_iff.1 ht
    -- the lines are joined by as many line feeds as there are further lines
    have hcount : (joinWith ['\n'] (first :: ls)).count '\n' = ls.length := by
      apply count_joinWith
      intro q hq
      rcases List.mem_cons.1 hq with rfl | hq
      · intro hm
        exact hlines l (by simp) (mem_of_mem_trim (mem_of_mem_markerRest? hfirst hm))
      · exact hlines q (List.mem_cons_of_mem l hq)
    rw [htext, List.count_append] at hcount
    rw [List.length_cons]
    omega

/-- A line that announces metadata. -/
def IsMarker (line : Text) : Prop :=
  trim line = Kind.frontmatter ∨ Kind.frontmatter ++ [' '] <+: trim line

theorem isSome_markerRest?_iff {l : Text} : (markerRest? (trim l)).isSome ↔ IsMarker l := by
  unfold markerRest? IsMarker
  by_cases he : trim l = Kind.frontmatter
  · simp [he]
  · rw [if_neg he]
    simp only [he, false_or]
    rw [Option.isSome_iff_exists]
    constructor
    · rintro ⟨rest, h⟩
      obtain ⟨t, ht, hrest⟩ := Option.bind_eq_some_iff.1 h
      rw [stripPrefix?_eq_some_iff] at ht hrest
      exact ⟨rest, by rw [ht, hrest, List.append_assoc]⟩
    · rintro ⟨rest, h⟩
      refine ⟨rest, Option.bind_eq_some_iff.2 ⟨' ' :: rest, ?_, ?_⟩⟩
      · rw [stripPrefix?_eq_some_iff, ← h, List.append_assoc]
        rfl
      · exact stripPrefix?_eq_some_iff.2 rfl

/-- Without a marker on its first line nothing is captured. -/
theorem capture?_eq_none {l : Text} {ls : List Text} (h : ¬ IsMarker l) :
    capture? (l :: ls) = none := by
  rw [← isSome_markerRest?_iff, Option.not_isSome_iff_eq_none] at h
  unfold capture?
  rw [afterMarker?_cons, h]
  rfl

/-- Every marker among the lines has its object there. -/
def Complete (lines : List Text) : Prop :=
  ∀ before l after, lines = before ++ l :: after → IsMarker l → (capture? (l :: after)).isSome

theorem complete_nil : Complete [] := by
  intro before l after h
  cases before <;> cases h

theorem complete_cons_iff {l : Text} {ls : List Text} :
    Complete (l :: ls) ↔ (IsMarker l → (capture? (l :: ls)).isSome) ∧ Complete ls := by
  constructor
  · intro h
    refine ⟨h [] l ls rfl, fun before m after hsplit => h (l :: before) m after ?_⟩
    rw [hsplit]
    rfl
  · rintro ⟨hl, hls⟩ before m after hsplit
    cases before with
    | nil =>
      obtain ⟨rfl, rfl⟩ := List.cons.inj hsplit
      exact hl
    | cons l' before => exact hls before m after (List.cons.inj hsplit).2

instance (line : Text) : Decidable (IsMarker line) := by unfold IsMarker; infer_instance

instance decidableComplete : (ls : List Text) → Decidable (Complete ls)
  | [] => isTrue complete_nil
  | _ :: ls =>
    have := decidableComplete ls
    decidable_of_iff _ complete_cons_iff.symm

theorem Complete.drop {lines : List Text} (h : Complete lines) (n : Nat) :
    Complete (lines.drop n) := by
  intro before l after hsplit
  refine h (lines.take n ++ before) l after ?_
  rw [List.append_assoc, ← hsplit, List.take_append_drop]

end Folio.Frontmatter
