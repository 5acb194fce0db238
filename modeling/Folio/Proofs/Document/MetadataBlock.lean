import Mathlib.Data.List.Forall2
import Folio.Document.Page
import Folio.Proofs.Document.Metadata
import Folio.Proofs.Document.Suffix
import Folio.Proofs.Json.Layout

namespace Folio.Frontmatter

open Json Text

/-- A complete object that a text starts with. -/
structure Opens (body o : Text) (ms : List (Text × Json)) : Prop where
  start : o <+: body
  brace : body.head? = some '\x7b'
  closed : o.getLast? = some '\x7d'
  complete : Json.parse o = .ok (.object ms)

/-- A text that is an object holds it between white space. -/
theorem parse_object {t : Text} {ms : List (Text × Json)} (h : Json.parse t = .ok (.object ms)) :
    ∃ lead o trail, t = lead ++ o ++ trail ∧ (∀ c ∈ lead, isSpace c) ∧ (∀ c ∈ trail, isSpace c) ∧
      IsObject o ∧ Json.parse o = .ok (.object ms) := by
  obtain ⟨trail, hread, hend⟩ := parse_eq_ok_iff.1 h
  obtain ⟨cs, hskip⟩ := readValue_object_brace hread
  obtain ⟨lead, rfl, hlead, _⟩ := skipSpace_eq_cons_iff.1 hskip
  rw [show depthLimit = 127 + 1 from rfl, readValue_of_skipSpace hskip] at hread
  obtain ⟨part, rfl, hall⟩ := readValue_object hread
  refine ⟨lead, '\x7b' :: part ++ ['\x7d'], trail, by simp, hlead, List.dropWhile_eq_nil_iff.1 hend,
    ⟨part, ms, rfl, hall []⟩, parse_eq_ok_iff.2 ⟨[], hall [], rfl⟩⟩

theorem IsObject.head {o : Text} (h : IsObject o) (rest : Text) :
    (o ++ rest).head? = some '\x7b' := by
  obtain ⟨part, _, rfl, _⟩ := h
  rfl

theorem IsObject.getLast {o : Text} (h : IsObject o) : o.getLast? = some '\x7d' := by
  obtain ⟨part, _, rfl, _⟩ := h
  exact List.getLast?_concat

theorem opens_iff {body o : Text} {ms : List (Text × Json)} :
    Opens body o ms ↔ IsObject o ∧ Json.parse o = .ok (.object ms) ∧ ∃ rest, body = o ++ rest := by
  constructor
  · rintro ⟨⟨rest, rfl⟩, hbrace, hclosed, hparse⟩
    refine ⟨?_, hparse, rest, rfl⟩
    obtain ⟨lead, o', trail, rfl, hlead, htrail, hobject, _⟩ := parse_object hparse
    -- neither brace is white space
    have hlead : lead = [] := by
      cases lead with
      | nil => rfl
      | cons c lead =>
        obtain rfl : c = '\x7b' := Option.some.inj hbrace
        exact absurd (hlead '\x7b' (by simp)) (by decide)
    have htrail : trail = [] := by
      rcases List.eq_nil_or_concat trail with rfl | ⟨trail, c, rfl⟩
      · rfl
      · rw [List.concat_eq_append, ← List.append_assoc, List.getLast?_concat] at hclosed
        obtain rfl : c = '\x7d' := Option.some.inj hclosed
        exact absurd (htrail '\x7d' (by simp)) (by decide)
    rw [hlead, htrail, List.nil_append, List.append_nil]
    exact hobject
  · rintro ⟨hobject, hparse, rest, rfl⟩
    exact ⟨List.prefix_append o rest, hobject.head rest, hobject.getLast, hparse⟩

/-- No text starts with two complete objects. -/
theorem Opens.unique {body o o' : Text} {ms ms' : List (Text × Json)} (h : Opens body o ms)
    (h' : Opens body o' ms') : o = o' := by
  obtain ⟨hobject, _, rest, rfl⟩ := opens_iff.1 h
  obtain ⟨hobject', _, rest', hsplit⟩ := opens_iff.1 h'
  obtain ⟨ks, hread⟩ := readValue_object_append rest hobject
  obtain ⟨ks', hread'⟩ := readValue_object_append rest' hobject'
  rw [hsplit, hread'] at hread
  obtain rfl : rest' = rest := (Prod.mk.inj (Except.ok.inj hread)).2
  exact List.append_cancel_right hsplit

/-- The members of a captured object are those that it has as a value. -/
theorem parse_eq_ok {o : Text} {ms : List (Text × Json)} (h : IsObject o)
    (hparse : Json.parse o = .ok (.object ms)) :
    parse o = .ok (sortMembers (canonicalMembers ms)) := by
  obtain ⟨part, ks, rfl, hread⟩ := h
  obtain ⟨rest, hread', _⟩ := parse_eq_ok_iff.1 hparse
  rw [hread] at hread'
  obtain ⟨hobject, rfl⟩ := Prod.mk.inj (Except.ok.inj hread')
  obtain rfl : ks = ms := Json.object.inj hobject
  have hskip : skipSpace ('\x7b' :: part ++ ['\x7d']) = '\x7b' :: part ++ ['\x7d'] :=
    List.dropWhile_cons_of_neg (by decide)
  have hobject : readObject ('\x7b' :: part ++ ['\x7d']) = .ok (ks, []) := by
    rw [readObject, hskip]
    simp only [List.cons_append] at hread ⊢
    rw [hread]
    rfl
  rw [parse, whole, hobject]
  rfl

/-- What stands after a marker on its line, and the further lines. -/
def rows? : List Text → Option (List Text)
  | [] => none
  | l :: ls => (markerRest? (trim l)).map fun first => first :: ls

theorem afterMarker?_eq (lines : List Text) :
    afterMarker? lines = (rows? lines).map (joinWith ['\n']) := by
  cases lines with
  | nil => rfl
  | cons l ls => rw [afterMarker?_cons, rows?, Option.map_map]; rfl

theorem isSome_rows?_iff {l : Text} {ls : List Text} : (rows? (l :: ls)).isSome ↔ IsMarker l := by
  rw [rows?, Option.isSome_map, isSome_markerRest?_iff]

/-- Up to its closing brace on the last of `n` rows, the rows are an object with blanks before it. -/
def ClosesOn (rows : List Text) (o : Text) (n : Nat) : Prop :=
  ∃ lead init before after, (∀ c ∈ lead, isBlank c) ∧ n = init.length + 1 ∧
    init ++ [before ++ '\x7d' :: after] <+: rows ∧
    lead ++ o = joinWith ['\n'] (init ++ [before ++ ['\x7d']])

theorem ClosesOn.bounds {rows : List Text} {o : Text} {n : Nat} (h : ClosesOn rows o n) :
    0 < n ∧ n ≤ rows.length := by
  obtain ⟨_, init, _, _, _, rfl, hrows, _⟩ := h
  have hle := hrows.length_le
  rw [List.length_append, List.length_singleton] at hle
  exact ⟨Nat.succ_pos _, hle⟩

theorem ClosesOn.append {rows : List Text} {o : Text} {n : Nat} (h : ClosesOn rows o n)
    (others : List Text) : ClosesOn (rows ++ others) o n := by
  obtain ⟨lead, init, before, after, hlead, hn, hrows, hlo⟩ := h
  exact ⟨lead, init, before, after, hlead, hn, hrows.trans (List.prefix_append rows others), hlo⟩

theorem ClosesOn.take {rows : List Text} {o : Text} {n : Nat} (h : ClosesOn rows o n) :
    ClosesOn (rows.take n) o n := by
  obtain ⟨lead, init, before, after, hlead, rfl, ⟨more, rfl⟩, hlo⟩ := h
  refine ⟨lead, init, before, after, hlead, rfl, ?_, hlo⟩
  rw [List.take_left' (by simp)]

/-- Where a brace stands in the text of rows. -/
theorem rows_of_brace {rows : List Text} {y rest : Text} (hne : rows ≠ [])
    (hrows : ∀ row ∈ rows, '\n' ∉ row) (h : joinWith ['\n'] rows = y ++ '\x7d' :: rest) :
    ∃ init last first more, rows = init ++ (last ++ '\x7d' :: first) :: more ∧
      splitOn '\n' rest = first :: more ∧ y = joinWith ['\n'] (init ++ [last]) := by
  obtain ⟨init, last, first, more, hy, hrest, hsplit⟩ := @splitOn_append '\n' y ('\x7d' :: rest)
  rw [← h, splitOn_joinWith hne hrows] at hsplit
  obtain ⟨p, ps, hps⟩ := List.exists_cons_of_ne_nil (splitOn_ne_nil '\n' rest)
  rw [splitOn, if_neg (by decide), hps] at hrest
  obtain ⟨rfl, rfl⟩ := List.cons.inj hrest
  refine ⟨init, last, p, ps, hsplit, hps, ?_⟩
  rw [← hy, joinWith_splitOn]

theorem count_joinWith_concat {init : List Text} {last : Text} (hinit : ∀ q ∈ init, '\n' ∉ q)
    (hlast : '\n' ∉ last) : (joinWith ['\n'] (init ++ [last])).count '\n' = init.length := by
  have hall : ∀ q ∈ init ++ [last], '\n' ∉ q := by
    intro q hq
    rcases List.mem_append.1 hq with hq | hq
    · exact hinit q hq
    · rwa [List.mem_singleton.1 hq]
  cases init with
  | nil => exact count_joinWith hall
  | cons p ps =>
    rw [List.cons_append] at hall ⊢
    rw [count_joinWith hall, List.length_append, List.length_cons]
    rfl

theorem newline_not_mem_closed {before : Text} (after : Text) (h : '\n' ∉ before ++ '\x7d' :: after) :
    '\n' ∉ before ++ ['\x7d'] := by
  intro hmem
  rcases List.mem_append.1 hmem with hmem | hmem
  · exact h (List.mem_append_left _ hmem)
  · exact absurd hmem (by decide)

/-- An object in the text of rows closes on the row that holds its last brace. -/
theorem closesOn_of_joinWith {rows : List Text} {lead o rest : Text} (hne : rows ≠ [])
    (hrows : ∀ row ∈ rows, '\n' ∉ row) (h : joinWith ['\n'] rows = lead ++ o ++ rest)
    (hlead : ∀ c ∈ lead, isBlank c) (hobject : IsObject o) :
    ClosesOn rows o (1 + (lead ++ o).count '\n') := by
  obtain ⟨part, _, ho, _⟩ := hobject
  have hbrace : lead ++ o = lead ++ '\x7b' :: part ++ ['\x7d'] := by rw [ho]; simp
  rw [hbrace, List.append_assoc, List.singleton_append] at h
  obtain ⟨init, last, first, more, rfl, _, hy⟩ := rows_of_brace hne hrows h
  have hclosed : lead ++ o = joinWith ['\n'] (init ++ [last ++ ['\x7d']]) := by
    rw [hbrace, hy, joinWith_concat_append]
  refine ⟨lead, init, last, first, hlead, ?_, ⟨more, by simp⟩, hclosed⟩
  rw [hclosed, count_joinWith_concat (fun q hq => hrows q (List.mem_append_left _ hq))
    (newline_not_mem_closed first (hrows _ (by simp))), Nat.add_comm]

/-- An object that closes on a row is captured with the rows up to it, whatever comes after them. -/
theorem capture?_of_closesOn {lines rows : List Text} {o : Text} {n : Nat}
    (hlines : rows? lines = some rows) (hobject : IsObject o) (hclosed : ClosesOn rows o n)
    (hrows : ∀ row ∈ rows.take n, '\n' ∉ row) : capture? lines = some (o, n) := by
  obtain ⟨lead, init, before, after, hlead, rfl, ⟨more, rfl⟩, hlo⟩ := hclosed
  have htake : (init ++ [before ++ '\x7d' :: after] ++ more).take (init.length + 1) =
      init ++ [before ++ '\x7d' :: after] := List.take_left' (by simp)
  rw [htake] at hrows
  have hcount : (lead ++ o).count '\n' = init.length := by
    rw [hlo]
    exact count_joinWith_concat (fun q hq => hrows q (List.mem_append_left _ hq))
      (newline_not_mem_closed after (hrows _ (by simp)))
  obtain ⟨rest, hrest⟩ := exists_joinWith_append ['\n']
    (List.append_ne_nil_of_right_ne_nil init (List.cons_ne_nil (before ++ '\x7d' :: after) [])) more
  refine capture?_eq_some_iff.2 ⟨lead, after ++ rest, ?_, hlead, hobject, by omega⟩
  rw [afterMarker?_eq, hlines, Option.map_some, hrest, List.append_cons before,
    joinWith_concat_append, ← hlo, List.append_assoc _ after]

/-- What is captured closes on the last of the rows that it spans. -/
theorem closesOn_of_capture? {lines rows : List Text} {o : Text} {n : Nat}
    (hlines : ∀ l ∈ lines, '\n' ∉ l) (hrows : rows? lines = some rows)
    (h : capture? lines = some (o, n)) : ClosesOn rows o n := by
  obtain ⟨lead, rest, ht, hlead, hobject, rfl⟩ := capture?_eq_some_iff.1 h
  rw [afterMarker?_eq, hrows] at ht
  cases lines with
  | nil => cases hrows
  | cons l ls =>
    obtain ⟨first, hfirst, rfl⟩ := Option.map_eq_some_iff.1 hrows
    refine closesOn_of_joinWith (by simp) ?_ (Option.some.inj ht) hlead hobject
    intro row hrow
    rcases List.mem_cons.1 hrow with rfl | hrow
    · intro hm
      exact hlines l (by simp) (mem_of_mem_trim (mem_of_mem_markerRest? hfirst hm))
    · exact hlines row (List.mem_cons_of_mem l hrow)

/-- What stands after a marker, without the blanks at the end of the line. -/
theorem markerRest?_marker (p : Text) :
    markerRest? (trim (Kind.frontmatter ++ ' ' :: p)) = some (trimEnd p) := by
  have hstart : trimStart (Kind.frontmatter ++ ' ' :: p) = Kind.frontmatter ++ ' ' :: p :=
    List.dropWhile_cons_of_neg (by decide)
  have hmarker : trimEnd Kind.frontmatter = Kind.frontmatter := by decide
  have hspace : trimEnd (' ' :: p) = if trimEnd p = [] then [] else ' ' :: trimEnd p :=
    trimEnd_prepend [' '] p
  rw [trim, hstart, trimEnd_prepend, hspace, hmarker]
  by_cases hp : trimEnd p = []
  · rw [if_pos hp, if_pos rfl, hp]
    rfl
  · rw [if_neg hp, if_neg (List.cons_ne_nil _ _)]
    rfl

/-- The lines of a marker with a text after it, and of what follows. -/
theorem lines_marker {t p : Text} {ps : List Text} (ht : splitOn '\n' t = p :: ps) (u : Text) :
    lines (Kind.frontmatter ++ ' ' :: t ++ '\n' :: u) =
      dropReturn (Kind.frontmatter ++ ' ' :: p) :: (ps.map dropReturn ++ lines u) := by
  have hmarker : splitOn '\n' (Kind.frontmatter ++ [' ']) = [Kind.frontmatter ++ [' ']] :=
    splitOn_of_not_mem (by decide)
  obtain ⟨init, last, first, more, hinit, hmore, hsplit⟩ :=
    @splitOn_append '\n' (Kind.frontmatter ++ [' ']) t
  rw [hmarker] at hinit
  have hnil : [] ++ [Kind.frontmatter ++ [' ']] = init ++ [last] := hinit
  obtain ⟨rfl, hlast⟩ := List.append_inj' hnil rfl
  obtain rfl := (List.cons.inj hlast).1
  obtain ⟨rfl, rfl⟩ := List.cons.inj (ht.symm.trans hmore)
  rw [lines_append_cons, ended, List.append_cons, hsplit]
  simp

theorem forall₂_dropReturn (ps : List Text) :
    List.Forall₂ (fun p q => ∃ blanks, p = q ++ blanks ∧ ∀ c ∈ blanks, isBlank c) ps
      (ps.map dropReturn) := by
  rw [List.forall₂_map_right_iff, List.forall₂_same]
  intro p _
  rcases dropReturn_cases p with hp | hp
  · exact ⟨[], by rw [hp, List.append_nil], by simp⟩
  · exact ⟨['\r'], hp, by simp [isBlank_return]⟩

theorem IsMarker.head {l : Text} (h : IsMarker l) : ∃ cs, trim l = 'f' :: cs := by
  rcases h with h | ⟨rest, h⟩
  · exact ⟨_, h⟩
  · exact ⟨_, h.symm⟩

/-- A marker with its object is claimed as metadata, whatever the registry. -/
theorem claimAt?_metadata (r : Registry) {l : Text} {ls : List Text} {o : Text} {n : Nat}
    (hm : IsMarker l) (h : capture? (l :: ls) = some (o, n)) :
    Segment.claimAt? r (l :: ls) 0 = some ⟨n, [⟨Kind.frontmatter, o⟩]⟩ := by
  obtain ⟨cs, hcs⟩ := hm.head
  have hflag : 'f' :: cs ∉ Kind.flags := by
    intro hmem
    simp only [Kind.flags, List.mem_cons, List.not_mem_nil, or_false] at hmem
    rcases hmem with hmem | hmem | hmem <;> cases hmem
  have himport : Lines.argument? Kind.importKind ('f' :: cs) = none := rfl
  have hvariable : Lines.argument? "var".toList ('f' :: cs) = none := rfl
  rw [Segment.claimAt?, Segment.lineAt_cons, hcs, Segment.builtinClaim?, if_neg hflag]
  simp only [himport, hvariable, List.drop_zero, h, Option.some_or]

theorem tokensOf_blanks {r : Registry} (hr : r.Standard) {blanks ls : List Text}
    (hlines : ∀ l ∈ blanks ++ ls, '\n' ∉ l) (h : ∀ l ∈ blanks, trim l = []) :
    Segment.tokensOf r (blanks ++ ls) = Segment.tokensOf r ls := by
  induction blanks with
  | nil => rfl
  | cons l blanks ih =>
    rw [List.cons_append] at hlines ⊢
    obtain ⟨hl, hblanks⟩ := List.forall_mem_cons.1 h
    rw [Segment.tokensOf_blank hr hlines hl, ih (List.forall_mem_cons.1 hlines).2 hblanks]

/-- The rows of an object between white space: those up to the closing brace, and blank ones. -/
theorem rows_of_parse {rows : List Text} {ms : List (Text × Json)} (hne : rows ≠ [])
    (hrows : ∀ row ∈ rows, '\n' ∉ row) (h : Json.parse (joinWith ['\n'] rows) = .ok (.object ms)) :
    ∃ o n, IsObject o ∧ Json.parse o = .ok (.object ms) ∧ ClosesOn rows o n ∧
      ∀ row ∈ rows.drop n, trim row = [] := by
  obtain ⟨lead, o, trail, hsplit, hlead, htrail, hobject, hparse⟩ := parse_object h
  have hblank : ∀ c ∈ lead, isBlank c := fun c hc => isBlank_of_isSpace (hlead c hc)
  refine ⟨o, _, hobject, hparse, closesOn_of_joinWith hne hrows hsplit hblank hobject, ?_⟩
  obtain ⟨part, _, ho, _⟩ := hobject
  have hbrace : lead ++ o = lead ++ '\x7b' :: part ++ ['\x7d'] := by rw [ho]; simp
  rw [hbrace, List.append_assoc, List.singleton_append] at hsplit
  obtain ⟨init, last, first, more, rfl, hmore, hy⟩ := rows_of_brace hne hrows hsplit
  have hcount : (lead ++ o).count '\n' = init.length := by
    rw [hbrace, hy, ← joinWith_concat_append]
    exact count_joinWith_concat (fun q hq => hrows q (List.mem_append_left _ hq))
      (newline_not_mem_closed first (hrows _ (by simp)))
  intro row hrow
  rw [hcount, Nat.add_comm, List.append_cons, List.drop_left' (by simp)] at hrow
  -- the rows after the brace hold characters of the white space after the object
  have hpiece : row ∈ splitOn '\n' trail := by
    rw [hmore]
    exact List.mem_cons_of_mem first hrow
  exact trim_eq_nil fun c hc => isBlank_of_isSpace (htrail c (mem_of_mem_splitOn hpiece hc))

/-- A complete object after a marker is one token, and what follows it is read as it is alone. -/
theorem tokenize_metadata {r : Registry} (hr : r.Standard) {t : Text} {ms : List (Text × Json)}
    (ht : Json.parse t = .ok (.object ms)) (u : Text) :
    ∃ o, IsObject o ∧ Json.parse o = .ok (.object ms) ∧
      (tokenize r (Kind.frontmatter ++ ' ' :: t ++ '\n' :: u)).value =
        ⟨Kind.frontmatter, o⟩ :: (tokenize r u).value := by
  obtain ⟨p, ps, hps⟩ := List.exists_cons_of_ne_nil (splitOn_ne_nil '\n' t)
  -- the rows of the object lose the blanks and returns at their ends
  have hflow : Reflow t (joinWith ['\n'] (trimEnd p :: ps.map dropReturn)) := by
    rw [← joinWith_splitOn '\n' t, hps]
    exact Reflow.joinWith (.cons (exists_trimEnd p) (forall₂_dropReturn ps))
  have hrows : ∀ row ∈ trimEnd p :: ps.map dropReturn, '\n' ∉ row := by
    intro row hrow
    have hpiece : ∀ q ∈ p :: ps, '\n' ∉ q := fun q hq => not_mem_of_mem_splitOn (hps ▸ hq)
    rcases List.mem_cons.1 hrow with rfl | hrow
    · obtain ⟨blanks, hp, _⟩ := exists_trimEnd p
      exact fun hm => hpiece p (by simp) (hp ▸ List.mem_append_left blanks hm)
    · obtain ⟨q, hq, rfl⟩ := List.mem_map.1 hrow
      exact not_mem_dropReturn (hpiece q (List.mem_cons_of_mem p hq))
  obtain ⟨o, n, hobject, hparse, hclosed, hblank⟩ :=
    rows_of_parse (by simp) hrows (parse_reflow hflow ht)
  refine ⟨o, hobject, hparse, ?_⟩
  obtain ⟨hpos, hle⟩ := hclosed.bounds
  obtain ⟨m, rfl⟩ : ∃ m, n = m + 1 := ⟨n - 1, by omega⟩
  rw [List.length_cons] at hle
  rw [List.drop_succ_cons] at hblank
  have hfirst : markerRest? (trim (dropReturn (Kind.frontmatter ++ ' ' :: p))) = some (trimEnd p) := by
    rw [trim_dropReturn, markerRest?_marker]
  have hmarker : IsMarker (dropReturn (Kind.frontmatter ++ ' ' :: p)) :=
    isSome_markerRest?_iff.1 (by rw [hfirst]; rfl)
  have hcapture : capture? (dropReturn (Kind.frontmatter ++ ' ' :: p) ::
      (ps.map dropReturn ++ lines u)) = some (o, m + 1) := by
    refine capture?_of_closesOn (by rw [rows?, hfirst]; rfl) hobject (hclosed.append (lines u)) ?_
    intro row hrow
    rcases List.mem_append.1 (List.mem_of_mem_take hrow) with hrow | hrow
    · exact hrows row hrow
    · exact newline_not_mem_of_mem_lines hrow
  obtain ⟨cs, hcs⟩ := hmarker.head
  have hunbroken : ∀ l ∈ dropReturn (Kind.frontmatter ++ ' ' :: p) :: (ps.map dropReturn ++ lines u),
      '\n' ∉ l := fun _ hl => newline_not_mem_of_mem_lines (lines_marker hps u ▸ hl)
  have hdrop : (ps.map dropReturn ++ lines u).drop m = (ps.map dropReturn).drop m ++ lines u :=
    List.drop_append_of_le_length (Nat.le_of_succ_le_succ hle)
  calc (tokenize r (Kind.frontmatter ++ ' ' :: t ++ '\n' :: u)).value
      = Segment.tokensOf r (dropReturn (Kind.frontmatter ++ ' ' :: p) ::
          (ps.map dropReturn ++ lines u)) := by rw [← lines_marker hps u]; rfl
    _ = ⟨Kind.frontmatter, o⟩ :: Segment.tokensOf r ((ps.map dropReturn ++ lines u).drop m) := by
        rw [Segment.tokensOf_claimed hr hunbroken (by simp [hcs])
          (claimAt?_metadata r hmarker hcapture), Nat.max_eq_right hpos]
        rfl
    _ = ⟨Kind.frontmatter, o⟩ :: Segment.tokensOf r (lines u) := by
        rw [hdrop, tokensOf_blanks hr (fun l hl => ?_) hblank]
        rw [← hdrop] at hl
        exact hunbroken l (List.mem_cons_of_mem _ (List.mem_of_mem_drop hl))
    _ = ⟨Kind.frontmatter, o⟩ :: (tokenize r u).value := rfl

/-- The text after a marker, from its first character that is no blank on. -/
def body (rows : List Text) : Text := trimStart (joinWith ['\n'] rows)

/-- What a marker captures: the object that the text after it starts with, up to the row of the
closing brace, with its members and whatever comes after that row. -/
structure Captured (lines rows : List Text) (o : Text) (n : Nat) : Prop where
  object : ∃ ms members, Opens (body rows) o ms ∧ parse o = .ok members ∧
    Json.canonical (.object ms) = .object members
  only : ∀ o' ms, Opens (body rows) o' ms → o' = o
  closed : ClosesOn rows o n
  settled : ∀ others, capture? (lines.take n ++ others) = some (o, n)

theorem exists_parse {o : Text} (h : IsObject o) : ∃ ms, Json.parse o = .ok (.object ms) := by
  obtain ⟨_, ms, _, hread⟩ := h
  exact ⟨ms, parse_eq_ok_iff.2 ⟨[], hread, rfl⟩⟩

theorem body_eq {rows : List Text} {lead o rest : Text} (h : joinWith ['\n'] rows = lead ++ o ++ rest)
    (hlead : ∀ c ∈ lead, isBlank c) (hobject : IsObject o) : body rows = o ++ rest := by
  obtain ⟨cs, hcs⟩ := List.head?_eq_some_iff.1 (hobject.head rest)
  rw [body, h, trimStart, List.append_assoc, List.dropWhile_append_of_pos hlead, hcs]
  exact List.dropWhile_cons_of_neg (by decide)

/-- A marker captures something exactly if the text after it starts with an object. -/
theorem isSome_capture?_iff {lines rows : List Text} (hrows : rows? lines = some rows) :
    (capture? lines).isSome ↔ ∃ o ms, Opens (body rows) o ms := by
  constructor
  · intro h
    obtain ⟨⟨o, n⟩, hcapture⟩ := Option.isSome_iff_exists.1 h
    obtain ⟨lead, rest, ht, hlead, hobject, _⟩ := capture?_eq_some_iff.1 hcapture
    rw [afterMarker?_eq, hrows] at ht
    obtain ⟨ms, hms⟩ := exists_parse hobject
    exact ⟨o, ms, opens_iff.2 ⟨hobject, hms, rest, body_eq (Option.some.inj ht) hlead hobject⟩⟩
  · rintro ⟨o, ms, hopens⟩
    obtain ⟨hobject, _, rest, hbody⟩ := opens_iff.1 hopens
    have hsplit : joinWith ['\n'] rows = (joinWith ['\n'] rows).takeWhile isBlank ++ o ++ rest := by
      rw [List.append_assoc, ← hbody, body, trimStart, List.takeWhile_append_dropWhile]
    have hcapture : capture? lines =
        some (o, 1 + ((joinWith ['\n'] rows).takeWhile isBlank ++ o).count '\n') := by
      refine capture?_eq_some_iff.2 ⟨(joinWith ['\n'] rows).takeWhile isBlank, rest, ?_,
        fun c hc => List.all_eq_true.1 List.all_takeWhile c hc, hobject, rfl⟩
      rw [afterMarker?_eq, hrows, Option.map_some, ← hsplit]
    rw [hcapture]
    rfl

theorem captured_of_capture? {lines rows : List Text} {o : Text} {n : Nat}
    (hlines : ∀ l ∈ lines, '\n' ∉ l) (hrows : rows? lines = some rows)
    (h : capture? lines = some (o, n)) : Captured lines rows o n := by
  obtain ⟨lead, rest, ht, hlead, hobject, _⟩ := capture?_eq_some_iff.1 h
  rw [afterMarker?_eq, hrows] at ht
  obtain ⟨ms, hms⟩ := exists_parse hobject
  have hopens : Opens (body rows) o ms :=
    opens_iff.2 ⟨hobject, hms, rest, body_eq (Option.some.inj ht) hlead hobject⟩
  have hclosed := closesOn_of_capture? hlines hrows h
  refine ⟨⟨ms, _, hopens, parse_eq_ok hobject hms, rfl⟩, fun o' ms' h' => h'.unique hopens, hclosed, ?_⟩
  intro others
  cases lines with
  | nil => cases hrows
  | cons l ls =>
    obtain ⟨first, hfirst, rfl⟩ := Option.map_eq_some_iff.1 hrows
    obtain ⟨hpos, hle⟩ := hclosed.bounds
    obtain ⟨m, rfl⟩ : ∃ m, n = m + 1 := ⟨n - 1, by omega⟩
    have hrows' : rows? ((l :: ls).take (m + 1) ++ others) =
        some ((first :: ls).take (m + 1) ++ others) := by
      rw [List.take_succ_cons, List.cons_append, rows?, hfirst]
      rfl
    refine capture?_of_closesOn hrows' hobject (hclosed.take.append others) ?_
    rw [List.take_append_of_le_length (by rw [List.length_take]; omega), List.take_take, Nat.min_self]
    intro row hrow
    rcases List.mem_cons.1 (List.mem_of_mem_take hrow) with rfl | hrow
    · intro hm
      exact hlines l (by simp) (mem_of_mem_trim (mem_of_mem_markerRest? hfirst hm))
    · exact hlines row (List.mem_cons_of_mem l hrow)

/-- Metadata goes to the page. -/
theorem note_metadata (s : Summary) {o : Text} {members : Frontmatter} (h : parse o = .ok members) :
    s.note (.scalar Kind.frontmatter o) =
      .pure { s with frontmatter := s.frontmatter.union members } := by
  have hkind : (Node.scalar Kind.frontmatter o).kind = Kind.frontmatter := rfl
  have htext : (Node.scalar Kind.frontmatter o).text?.getD [] = o := rfl
  rw [Summary.note, hkind, htext, if_neg (by decide), if_neg (by decide), if_neg (by decide),
    if_neg (by decide), if_pos rfl, h]

/-- Metadata is recognized exactly where an object follows its marker, up to the closing brace, and
reaches the page with the members that it has. -/
theorem metadata_exact :
    (∀ (source : Text) (i : Nat) (l : Text), (lines source)[i]? = some l → IsMarker l →
      ∃ rows, rows? ((lines source).drop i) = some rows ∧
        ((capture? ((lines source).drop i)).isSome ↔ ∃ o ms, Opens (body rows) o ms) ∧
        ∀ o n, capture? ((lines source).drop i) = some (o, n) →
          Captured ((lines source).drop i) rows o n) ∧
    ∀ (r : Registry) (t : Text) (ms : List (Text × Json)) (u : Text), r.Standard →
      Json.parse t = .ok (.object ms) → ∃ o members,
        (tokenize r (Kind.frontmatter ++ ' ' :: t ++ '\n' :: u)).value =
          ⟨Kind.frontmatter, o⟩ :: (tokenize r u).value ∧
        parse o = .ok members ∧ Json.canonical (.object ms) = .object members ∧
        ∀ s : Summary, s.note (.scalar Kind.frontmatter o) =
          .pure { s with frontmatter := s.frontmatter.union members } := by
  constructor
  · intro source i l hl hm
    obtain ⟨hlt, hget⟩ := List.getElem?_eq_some_iff.1 hl
    have hdrop : (lines source).drop i = l :: (lines source).drop (i + 1) := by
      rw [List.drop_eq_getElem_cons hlt, hget]
    have hsome : (rows? ((lines source).drop i)).isSome := by
      rw [hdrop]
      exact isSome_rows?_iff.2 hm
    obtain ⟨rows, hrows⟩ := Option.isSome_iff_exists.1 hsome
    refine ⟨rows, hrows, isSome_capture?_iff hrows, fun o n h => captured_of_capture? ?_ hrows h⟩
    exact fun q hq => newline_not_mem_of_mem_lines (List.mem_of_mem_drop hq)
  · intro r t ms u hr ht
    obtain ⟨o, hobject, hparse, htokens⟩ := tokenize_metadata hr ht u
    have hmembers := parse_eq_ok hobject hparse
    exact ⟨o, _, htokens, hmembers, rfl, fun s => note_metadata s hmembers⟩

theorem metadata_exact_braces :
    (∃ rows, rows? (lines "frontmatter \x7b\n\x7d x\ntitle A".toList) = some rows ∧
      Captured (lines "frontmatter \x7b\n\x7d x\ntitle A".toList) rows "\x7b\n\x7d".toList 2) ∧
    ∃ o members, (tokenize Registry.builtin
        (Kind.frontmatter ++ ' ' :: "\x7b \r\n\x7d ".toList ++ '\n' :: "title A".toList)).value =
          ⟨Kind.frontmatter, o⟩ :: (tokenize Registry.builtin "title A".toList).value ∧
        parse o = .ok members ∧ Json.canonical (.object []) = .object members := by
  constructor
  · obtain ⟨rows, hrows, _, hcaptured⟩ := metadata_exact.1
      "frontmatter \x7b\n\x7d x\ntitle A".toList 0 "frontmatter \x7b".toList (by decide) (by decide)
    exact ⟨rows, hrows, hcaptured _ _ (by decide)⟩
  · obtain ⟨o, members, htokens, hparse, hcanonical, _⟩ := metadata_exact.2 Registry.builtin
      "\x7b \r\n\x7d ".toList [] "title A".toList Registry.builtin_standard (by rfl)
    exact ⟨o, members, htokens, hparse, hcanonical⟩

end Folio.Frontmatter
