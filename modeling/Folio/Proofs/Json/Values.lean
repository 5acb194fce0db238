import Folio.Proofs.Json.Literal

/-! Arrays, objects and whole values take a part of their input. The bounds on the rounds do not
matter: each round takes at least one character, so a bound above the length of the part is
enough. -/
namespace Folio.Json

variable {α σ : Type}

/-- Whatever a reader reads, it takes a part of at least one character for. -/
def Consuming (read : Text → Reading α) : Prop :=
  ∀ s x rest, read s = .ok (x, rest) →
    ∃ part, part ≠ [] ∧ s = part ++ rest ∧ Takes read part x rest.head?

theorem Consuming.toLocal {read : Text → Reading α} (h : Consuming read) : Local read := by
  intro s x rest hs
  obtain ⟨part, -, hpart⟩ := h s x rest hs
  exact ⟨part, hpart⟩

theorem map_eq_ok_iff {β ε : Type} {f : α → β} {r : Except ε α} {y : β} :
    r.map f = .ok y ↔ ∃ x, r = .ok x ∧ f x = y := by
  cases r <;> simp [Except.map]

theorem Local.map {β : Type} {read : Text → Reading α} (hread : Local read) (f : α → β) :
    Local fun s => (read s).map fun (x, rest) => (f x, rest) := by
  intro s y rest h
  obtain ⟨⟨x, t⟩, hs, hy⟩ := map_eq_ok_iff.1 h
  obtain ⟨rfl, rfl⟩ := Prod.mk.inj hy
  obtain ⟨part, rfl, htakes⟩ := hread.takes hs
  exact ⟨part, rfl, fun rest' hr => map_eq_ok_iff.2 ⟨(x, rest'), htakes rest' hr, rfl⟩⟩

theorem literal_local (w : Text) (x : α) :
    Local fun s => (literal w s).map fun rest => (x, rest) := by
  intro s y rest h
  obtain ⟨t, hs, hy⟩ := map_eq_ok_iff.1 h
  obtain ⟨rfl, rfl⟩ := Prod.mk.inj hy
  refine ⟨w, literal_eq_ok_iff.1 hs, ?_⟩
  intro rest' _
  exact map_eq_ok_iff.2 ⟨rest', literal_eq_ok_iff.2 rfl, rfl⟩

/-- Where the next item or member may start: at once for the first one, else after a comma. -/
def NextAt (first : Bool) (s t : Text) : Prop :=
  if first then skipSpace s = t else ∃ cs, skipSpace s = ',' :: cs ∧ skipSpace cs = t

theorem NextAt.extend {first : Bool} {s cs : Text} {c : Char} (h : NextAt first s (c :: cs)) :
    ∃ part, s = part ++ c :: cs ∧ ∀ ds, NextAt first (part ++ c :: ds) (c :: ds) := by
  cases first with
  | true => exact skipSpace_local h
  | false =>
    obtain ⟨t, hs, ht⟩ := h
    obtain ⟨space, rfl, hspace⟩ := skipSpace_local hs
    obtain ⟨space', rfl, hspace'⟩ := skipSpace_local ht
    refine ⟨space ++ ',' :: space', by simp, fun ds => ⟨space' ++ c :: ds, ?_, hspace' ds⟩⟩
    rw [List.append_assoc, List.cons_append, hspace]

/-- A round for an array reads its last item before, or one more item. -/
theorem readItems_succ_eq_ok_iff {item : Text → Reading α} {n : Nat} {first : Bool}
    {s rest : Text} {xs : List α} :
    readItems item (n + 1) first s = .ok (xs, rest) ↔
      (∃ t, skipSpace s = ']' :: t ∧ xs = [] ∧ rest = ']' :: t) ∨
      ∃ c t x u ys, NextAt first s (c :: t) ∧ c ≠ ']' ∧ item (c :: t) = .ok (x, u) ∧
        readItems item n false u = .ok (ys, rest) ∧ xs = x :: ys := by
  rw [readItems]
  dsimp only
  simp only [NextAt]
  cases hs : skipSpace s with
  | nil => grind
  | cons c cs =>
    by_cases hc : c = ']'
    · grind
    · cases first with
      | true => grind
      | false =>
        by_cases hcomma : c = ','
        · cases ht : skipSpace cs with
          | nil => grind
          | cons d ds => grind
        · grind

/-- A round for an object reads its closing brace, or one more member. -/
theorem foldMembers_succ_eq_ok_iff {step : σ → Text → Text → Reading σ} {n : Nat} {first : Bool}
    {s rest : Text} {x y : σ} :
    foldMembers step (n + 1) first x s = .ok (y, rest) ↔
      (skipSpace s = '\x7d' :: rest ∧ y = x) ∨
      ∃ t key u v z q, NextAt first s ('"' :: t) ∧ readStringBody t = .ok (key, u) ∧
        readColon u = .ok v ∧ step x key v = .ok (z, q) ∧
        foldMembers step n false z q = .ok (y, rest) := by
  rw [foldMembers]
  dsimp only
  simp only [NextAt]
  cases hs : skipSpace s with
  | nil => grind
  | cons c cs =>
    by_cases hc : c = '\x7d'
    · grind
    · cases first with
      | true => grind
      | false =>
        by_cases hcomma : c = ','
        · cases ht : skipSpace cs with
          | nil => grind
          | cons d ds => grind
        · grind

/-- The items of an array take the part before its closing bracket. -/
theorem readItems_extent {item : Text → Reading α} (hitem : Consuming item) {n : Nat} {first : Bool}
    {s rest : Text} {xs : List α} (h : readItems item n first s = .ok (xs, rest)) :
    ∃ part t, s = part ++ ']' :: t ∧ rest = ']' :: t ∧ ∀ m, part.length < m → ∀ t',
      readItems item m first (part ++ ']' :: t') = .ok (xs, ']' :: t') := by
  -- on the rounds; the bound of the second reading counts down with them
  induction n generalizing first s xs with
  | zero => cases h
  | succ n ih =>
    rcases readItems_succ_eq_ok_iff.1 h with ⟨t, hs, rfl, rfl⟩ |
      ⟨c, t, x, u, ys, hnext, hc, hx, hys, rfl⟩
    · obtain ⟨part, rfl, hpart⟩ := skipSpace_local hs
      refine ⟨part, t, rfl, rfl, ?_⟩
      intro m hm t'
      obtain ⟨k, rfl⟩ : ∃ k, m = k + 1 := ⟨m - 1, by omega⟩
      exact readItems_succ_eq_ok_iff.2 (Or.inl ⟨t', hpart t', rfl, rfl⟩)
    · obtain ⟨before, rfl, hbefore⟩ := hnext.extend
      obtain ⟨part, hne, hsplit, htakes⟩ := hitem _ _ _ hx
      obtain ⟨part', t', rfl, rfl, hrest⟩ := ih hys
      -- the item starts where the round found it, so that the next round sees the same character
      obtain ⟨d, ds, rfl⟩ := List.exists_cons_of_ne_nil hne
      obtain rfl : c = d := (List.cons.inj hsplit).1
      refine ⟨before ++ c :: ds ++ part', t', by simp [hsplit], rfl, ?_⟩
      intro m hm t''
      simp only [List.length_append, List.length_cons] at hm
      obtain ⟨k, rfl⟩ : ∃ k, m = k + 1 := ⟨m - 1, by omega⟩
      refine readItems_succ_eq_ok_iff.2 (Or.inr ⟨c, ds ++ (part' ++ ']' :: t''), x,
        part' ++ ']' :: t'', ys, ?_, hc, htakes _ (head?_append_congr _ rfl), hrest k (by omega) t'', rfl⟩)
      simpa using hbefore (ds ++ (part' ++ ']' :: t''))

/-- The members of an object take the part up to its closing brace. -/
theorem foldMembers_extent {step : σ → Text → Text → Reading σ} (hstep : ∀ x key, Local (step x key))
    {n : Nat} {first : Bool} {x y : σ} {s rest : Text}
    (h : foldMembers step n first x s = .ok (y, rest)) :
    ∃ part, s = part ++ '\x7d' :: rest ∧ ∀ m, part.length < m → ∀ rest',
      foldMembers step m first x (part ++ '\x7d' :: rest') = .ok (y, rest') := by
  induction n generalizing first s x with
  | zero => cases h
  | succ n ih =>
    rcases foldMembers_succ_eq_ok_iff.1 h with ⟨hs, rfl⟩ |
      ⟨t, key, u, v, z, q, hnext, hkey, hcolon, hvalue, hmembers⟩
    · obtain ⟨part, rfl, hpart⟩ := skipSpace_local hs
      refine ⟨part, rfl, ?_⟩
      intro m hm rest'
      obtain ⟨k, rfl⟩ : ∃ k, m = k + 1 := ⟨m - 1, by omega⟩
      exact foldMembers_succ_eq_ok_iff.2 (Or.inl ⟨hpart rest', rfl⟩)
    · obtain ⟨before, rfl, hbefore⟩ := hnext.extend
      obtain ⟨keyPart, rfl, htakesKey⟩ := readStringBody_local.takes hkey
      obtain ⟨colon, rfl, htakesColon⟩ := readColon_local hcolon
      obtain ⟨value, rfl, htakesValue⟩ := (hstep x key).takes hvalue
      obtain ⟨part, rfl, hrest⟩ := ih hmembers
      refine ⟨before ++ '"' :: (keyPart ++ colon ++ value ++ part), by simp, ?_⟩
      intro m hm rest'
      simp only [List.length_append, List.length_cons] at hm
      obtain ⟨k, rfl⟩ : ∃ k, m = k + 1 := ⟨m - 1, by omega⟩
      -- what follows the value is a comma, a blank or the brace, whatever comes after it
      have hhead : (part ++ '\x7d' :: rest').head? = (part ++ '\x7d' :: rest).head? :=
        head?_append_congr _ rfl
      refine foldMembers_succ_eq_ok_iff.2 (Or.inr
        ⟨keyPart ++ (colon ++ (value ++ (part ++ '\x7d' :: rest'))), key,
          colon ++ (value ++ (part ++ '\x7d' :: rest')), value ++ (part ++ '\x7d' :: rest'), z,
          part ++ '\x7d' :: rest', ?_, htakesKey _ ?_, htakesColon _, htakesValue _ hhead,
          hrest k (by omega) rest'⟩)
      · simpa using hbefore (keyPart ++ (colon ++ (value ++ (part ++ '\x7d' :: rest'))))
      · exact head?_append_congr _ (head?_append_congr _ hhead)

/-- The step of an object in a value: one more member. -/
def memberStep (d : Nat) (members : List (Text × Json)) (key value : Text) :
    Reading (List (Text × Json)) :=
  (readValue d value).map fun (j, rest) => (members ++ [(key, j)], rest)

/-- An array from after its opening bracket on. -/
theorem array_local {item : Text → Reading Json} (hitem : Consuming item) :
    Local fun cs => match readItems item (cs.length + 1) true cs with
      | .error e => .error e
      | .ok (items, rest) => (closeArray rest).map fun rest' => (Json.array items, rest') := by
  intro cs x rest h
  dsimp only at h
  cases hitems : readItems item (cs.length + 1) true cs with
  | error e =>
    rw [hitems] at h
    cases h
  | ok found =>
    obtain ⟨items, t⟩ := found
    rw [hitems] at h
    obtain ⟨part, u, rfl, rfl, hpart⟩ := readItems_extent hitem hitems
    -- the bracket that ends the items is the one that closes the array
    obtain ⟨rfl, rfl⟩ := Prod.mk.inj (Except.ok.inj h)
    refine ⟨part ++ [']'], by simp, ?_⟩
    intro rest' _
    dsimp only
    rw [List.append_assoc, List.singleton_append,
      hpart _ (by simp only [List.length_append, List.length_cons]; omega) rest']
    rfl

/-- The members of an object are read alike whatever follows the closing brace. -/
theorem object_extent {d : Nat} (hd : Consuming (readValue d)) {cs rest : Text}
    {ms : List (Text × Json)}
    (h : foldMembers (memberStep d) (cs.length + 1) true [] cs = .ok (ms, rest)) :
    ∃ part, cs = part ++ '\x7d' :: rest ∧ ∀ rest',
      foldMembers (memberStep d) ((part ++ '\x7d' :: rest').length + 1) true []
        (part ++ '\x7d' :: rest') = .ok (ms, rest') := by
  have hstep (members : List (Text × Json)) (key : Text) : Local (memberStep d members key) :=
    hd.toLocal.map fun j => members ++ [(key, j)]
  obtain ⟨part, hcs, hpart⟩ := foldMembers_extent hstep h
  refine ⟨part, hcs, fun rest' => hpart _ ?_ rest'⟩
  simp only [List.length_append, List.length_cons]
  omega

theorem object_local {d : Nat} (hd : Consuming (readValue d)) :
    Local fun cs => (foldMembers (memberStep d) (cs.length + 1) true [] cs).map
      fun (ms, rest) => (Json.object ms, rest) := by
  intro cs x rest h
  obtain ⟨⟨ms, t⟩, hms, hx⟩ := map_eq_ok_iff.1 h
  obtain ⟨rfl, rfl⟩ := Prod.mk.inj hx
  obtain ⟨part, rfl, hpart⟩ := object_extent hd hms
  refine ⟨part ++ ['\x7d'], by simp, ?_⟩
  intro rest' _
  rw [List.append_assoc, List.singleton_append]
  exact map_eq_ok_iff.2 ⟨(ms, rest'), hpart rest', rfl⟩

/-- What is read after the first character of a value. -/
theorem readValue_cons_local {d : Nat} (hd : Consuming (readValue d)) {c : Char}
    (hc : ¬ isSpace c) : Local fun cs => readValue (d + 1) (c :: cs) := by
  have hskip (cs : Text) : skipSpace (c :: cs) = c :: cs := List.dropWhile_cons_of_neg hc
  have hnever (f : Text → Failure) : Local fun cs => (.error (f cs) : Reading Json) :=
    fun _ _ _ h => nomatch h
  simp only [readValue, hskip]
  -- the first character decides what is read
  by_cases hnull : c = 'n'
  · simp only [if_pos hnull]
    exact literal_local _ _
  simp only [if_neg hnull]
  by_cases htrue : c = 't'
  · simp only [if_pos htrue]
    exact literal_local _ _
  simp only [if_neg htrue]
  by_cases hfalse : c = 'f'
  · simp only [if_pos hfalse]
    exact literal_local _ _
  simp only [if_neg hfalse]
  by_cases hminus : c = '-'
  · simp only [if_pos hminus]
    exact (readNumber_local true).map Json.number
  simp only [if_neg hminus]
  by_cases hdigit : isDigit c
  · simp only [if_pos hdigit]
    exact (readNumber_cons_local false c).map Json.number
  simp only [if_neg hdigit]
  by_cases hstring : c = '"'
  · simp only [if_pos hstring]
    exact readStringBody_local.map Json.string
  simp only [if_neg hstring]
  by_cases harray : c = '['
  · simp only [if_pos harray]
    by_cases hzero : d = 0
    · simp only [if_pos hzero]
      exact hnever _
    · simp only [if_neg hzero]
      exact array_local hd
  simp only [if_neg harray]
  by_cases hobject : c = '\x7b'
  · simp only [if_pos hobject]
    by_cases hzero : d = 0
    · simp only [if_pos hzero]
      exact hnever _
    · simp only [if_neg hzero]
      exact object_local hd
  · simp only [if_neg hobject]
    exact hnever _

/-- Whatever is read as a value, a part of at least one character is taken for it. -/
theorem readValue_consuming (d : Nat) : Consuming (readValue d) := by
  induction d with
  | zero =>
    intro s x rest h
    cases h
  | succ d ih =>
    intro s x rest h
    have hskip {c : Char} {cs t : Text} (ht : skipSpace t = c :: cs) :
        readValue (d + 1) t = readValue (d + 1) (c :: cs) := by
      obtain ⟨_, _, _, hc⟩ := skipSpace_eq_cons_iff.1 ht
      rw [readValue, readValue, ht, show skipSpace (c :: cs) = c :: cs from
        List.dropWhile_cons_of_neg hc]
    cases hs : skipSpace s with
    | nil =>
      rw [readValue, hs] at h
      cases h
    | cons c cs =>
      rw [hskip hs] at h
      obtain ⟨space, rfl, hspace, hc⟩ := skipSpace_eq_cons_iff.1 hs
      obtain ⟨part, rfl, htakes⟩ := (readValue_cons_local ih hc).takes h
      refine ⟨space ++ c :: part, by simp, by simp, ?_⟩
      intro rest' hr
      rw [List.append_assoc, List.cons_append,
        hskip (skipSpace_eq_cons_iff.2 ⟨space, rfl, hspace, hc⟩)]
      exact htakes rest' hr

/-- An object is read alike whatever follows its closing brace. -/
theorem readValue_object {d : Nat} {cs rest : Text} {ms : List (Text × Json)}
    (h : readValue d ('\x7b' :: cs) = .ok (.object ms, rest)) :
    ∃ part, cs = part ++ '\x7d' :: rest ∧ ∀ rest',
      readValue d ('\x7b' :: part ++ '\x7d' :: rest') = .ok (.object ms, rest') := by
  cases d with
  | zero => cases h
  | succ d =>
    have hobject (t : Text) : readValue (d + 1) ('\x7b' :: t) =
        if d = 0 then .error (failAt .tooDeep ('\x7b' :: t))
        else (foldMembers (memberStep d) (t.length + 1) true [] t).map
          fun (ms, rest) => (.object ms, rest) := by
      rw [readValue]
      rfl
    rw [hobject] at h
    by_cases hd : d = 0
    · rw [if_pos hd] at h
      cases h
    · rw [if_neg hd] at h
      obtain ⟨⟨ms', t⟩, hms, hx⟩ := map_eq_ok_iff.1 h
      obtain ⟨hj, rfl⟩ := Prod.mk.inj hx
      obtain rfl : ms' = ms := Json.object.inj hj
      obtain ⟨part, rfl, hpart⟩ := object_extent (readValue_consuming d) hms
      refine ⟨part, rfl, ?_⟩
      intro rest'
      rw [List.cons_append, hobject, if_neg hd]
      exact map_eq_ok_iff.2 ⟨(ms', rest'), hpart rest', rfl⟩

end Folio.Json
