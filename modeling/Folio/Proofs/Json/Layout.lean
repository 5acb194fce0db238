import Folio.Proofs.Json.Reflow

namespace Folio.Json

open Text

variable {α σ : Type}

theorem NextAt.reflow {first : Bool} {s t u : Text} {c : Char} (h : NextAt first s (c :: u))
    (hflow : Reflow s t) (hc : ¬ isBlank c) :
    ∃ u', NextAt first t (c :: u') ∧ Reflow u u' := by
  cases first with
  | true => exact hflow.skipSpace h hc
  | false =>
    obtain ⟨v, hs, hv⟩ := h
    obtain ⟨v', ht, hflow'⟩ := hflow.skipSpace hs (by decide)
    obtain ⟨u', hu, hflow''⟩ := hflow'.skipSpace hv hc
    exact ⟨u', ⟨v', ht, hu⟩, hflow''⟩

theorem NextAt.not_isSpace {first : Bool} {s u : Text} {c : Char} (h : NextAt first s (c :: u)) :
    ¬ isSpace c := by
  cases first with
  | true =>
    obtain ⟨_, _, _, hc⟩ := skipSpace_eq_cons_iff.1 h
    exact hc
  | false =>
    obtain ⟨_, _, hv⟩ := h
    obtain ⟨_, _, _, hc⟩ := skipSpace_eq_cons_iff.1 hv
    exact hc

/-- Nothing starts with a blank that is no white space of JSON. -/
def StartsPlain (read : Text → Reading α) : Prop :=
  ∀ c cs r, isBlank c → ¬ isSpace c → read (c :: cs) ≠ .ok r

theorem readItems_reflow {item : Text → Reading α} (hitem : Stable item) (hplain : StartsPlain item)
    {n : Nat} {first : Bool} {s t rest : Text} {xs : List α} (h : Reflow s t)
    (hs : readItems item n first s = .ok (xs, rest)) :
    ∃ rest', readItems item n first t = .ok (xs, rest') ∧ Reflow rest rest' := by
  induction n generalizing first s t xs with
  | zero => cases hs
  | succ n ih =>
    rcases readItems_succ_eq_ok_iff.1 hs with ⟨u, hu, rfl, rfl⟩ |
      ⟨c, u, x, v, ys, hnext, hc, hx, hys, rfl⟩
    · obtain ⟨u', hu', hflow⟩ := h.skipSpace hu (by decide)
      exact ⟨']' :: u', readItems_succ_eq_ok_iff.2 (Or.inl ⟨u', hu', rfl, rfl⟩), .keep _ hflow⟩
    · have hblank : ¬ isBlank c := fun hblank => hplain c u _ hblank hnext.not_isSpace hx
      obtain ⟨u', hnext', hflow⟩ := hnext.reflow h hblank
      obtain ⟨v', hx', hflow'⟩ := hitem.apply (.keep c hflow) hx
      obtain ⟨rest', hrest, hflow''⟩ := ih hflow' hys
      exact ⟨rest', readItems_succ_eq_ok_iff.2 (Or.inr
        ⟨c, u', x, v', ys, hnext', hc, hx', hrest, rfl⟩), hflow''⟩

theorem foldMembers_reflow {step : σ → Text → Text → Reading σ}
    (hstep : ∀ x key, Stable (step x key)) {n : Nat} {first : Bool} {x y : σ} {s t rest : Text}
    (h : Reflow s t) (hs : foldMembers step n first x s = .ok (y, rest)) :
    ∃ rest', foldMembers step n first x t = .ok (y, rest') ∧ Reflow rest rest' := by
  induction n generalizing first s t x with
  | zero => cases hs
  | succ n ih =>
    rcases foldMembers_succ_eq_ok_iff.1 hs with ⟨hend, rfl⟩ |
      ⟨u, key, v, w, z, q, hnext, hkey, hcolon, hvalue, hmembers⟩
    · obtain ⟨rest', ht, hflow⟩ := h.skipSpace hend (by decide)
      exact ⟨rest', foldMembers_succ_eq_ok_iff.2 (Or.inl ⟨ht, rfl⟩), hflow⟩
    · obtain ⟨u', hnext', hflow⟩ := hnext.reflow h (by decide)
      obtain ⟨v', hkey', hflow⟩ := readStringBody_stable.apply hflow hkey
      obtain ⟨w', hcolon', hflow⟩ := readColon_reflow hflow hcolon
      obtain ⟨q', hvalue', hflow⟩ := (hstep x key).apply hflow hvalue
      obtain ⟨rest', hrest, hflow⟩ := ih hflow hmembers
      exact ⟨rest', foldMembers_succ_eq_ok_iff.2 (Or.inr
        ⟨u', key, v', w', z, q', hnext', hkey', hcolon', hvalue', hrest⟩), hflow⟩

theorem array_stable {item : Text → Reading Json} (hconsuming : Consuming item)
    (hitem : Stable item) (hplain : StartsPlain item) :
    Stable fun cs => match readItems item (cs.length + 1) true cs with
      | .error e => .error e
      | .ok (items, rest) => (closeArray rest).map fun rest' => (Json.array items, rest') := by
  intro s t x rest h hs
  dsimp only at hs ⊢
  cases hitems : readItems item (s.length + 1) true s with
  | error e =>
    rw [hitems] at hs
    cases hs
  | ok found =>
    obtain ⟨items, u⟩ := found
    rw [hitems] at hs
    obtain ⟨_, v, _, rfl, _⟩ := readItems_extent hconsuming hitems
    obtain ⟨u', hu', hflow⟩ := readItems_reflow hitem hplain h hitems
    -- the rounds are counted anew for the shorter text
    obtain ⟨part, v', rfl, rfl, hpart⟩ := readItems_extent hconsuming hu'
    obtain ⟨rfl, rfl⟩ := Prod.mk.inj (Except.ok.inj hs)
    obtain ⟨w, hw, hflow'⟩ := hflow.uncons (by decide)
    obtain ⟨-, rfl⟩ := List.cons.inj hw
    rw [hpart _ (by simp only [List.length_append, List.length_cons]; omega) v']
    exact ⟨v', rfl, hflow'⟩

theorem object_stable {d : Nat} (hconsuming : Consuming (readValue d))
    (hd : Stable (readValue d)) :
    Stable fun cs => (foldMembers (memberStep d) (cs.length + 1) true [] cs).map
      fun (ms, rest) => (Json.object ms, rest) := by
  intro s t x rest h hs
  obtain ⟨⟨ms, u⟩, hms, hx⟩ := map_eq_ok_iff.1 hs
  obtain ⟨rfl, rfl⟩ := Prod.mk.inj hx
  have hlocal (members : List (Text × Json)) (key : Text) : Local (memberStep d members key) :=
    hconsuming.toLocal.map fun j => members ++ [(key, j)]
  have hstep (members : List (Text × Json)) (key : Text) : Stable (memberStep d members key) :=
    hd.map fun j => members ++ [(key, j)]
  obtain ⟨rest', hrest, hflow⟩ := foldMembers_reflow hstep h hms
  obtain ⟨part, rfl, hpart⟩ := foldMembers_extent hlocal hrest
  have hlt : part.length < (part ++ '\x7d' :: rest').length + 1 := by
    rw [List.length_append]
    omega
  exact ⟨rest', map_eq_ok_iff.2 ⟨(ms, rest'), hpart _ hlt rest', rfl⟩, hflow⟩

theorem readValue_startsPlain (d : Nat) : StartsPlain (readValue d) := by
  intro c cs r hblank hc h
  cases d with
  | zero => cases h
  | succ d =>
    have hne (x : Char) (hx : ¬ isBlank x) : c ≠ x := fun hc => hx (hc ▸ hblank)
    have hskip : skipSpace (c :: cs) = c :: cs := List.dropWhile_cons_of_neg hc
    rw [readValue, hskip] at h
    simp [hne 'n' (by decide), hne 't' (by decide), hne 'f' (by decide), hne '-' (by decide),
      not_isDigit_of_isBlank c hblank, hne '"' (by decide), hne '[' (by decide),
      hne '\x7b' (by decide)] at h

/-- What is read after the first character of a value. -/
theorem readValue_cons_stable {d : Nat} (hd : Stable (readValue d)) {c : Char}
    (hc : ¬ isSpace c) : Stable fun cs => readValue (d + 1) (c :: cs) := by
  have hskip (cs : Text) : skipSpace (c :: cs) = c :: cs := List.dropWhile_cons_of_neg hc
  have hnever (f : Text → Failure) : Stable fun cs => (.error (f cs) : Reading Json) :=
    fun _ _ _ _ _ h => nomatch h
  have hconsuming := readValue_consuming d
  simp only [readValue, hskip]
  -- the first character is no blank, and decides on the reader
  by_cases hnull : c = 'n'
  · simp only [if_pos hnull]
    exact literal_stable (by decide) _
  simp only [if_neg hnull]
  by_cases htrue : c = 't'
  · simp only [if_pos htrue]
    exact literal_stable (by decide) _
  simp only [if_neg htrue]
  by_cases hfalse : c = 'f'
  · simp only [if_pos hfalse]
    exact literal_stable (by decide) _
  simp only [if_neg hfalse]
  by_cases hminus : c = '-'
  · simp only [if_pos hminus]
    exact (readNumber_stable true).map Json.number
  simp only [if_neg hminus]
  by_cases hdigit : isDigit c
  · simp only [if_pos hdigit]
    have hnumber : Stable fun cs => readNumber false (c :: cs) :=
      fun s t x rest h hs => (readNumber_stable false).apply (.keep c h) hs
    exact hnumber.map Json.number
  simp only [if_neg hdigit]
  by_cases hstring : c = '"'
  · simp only [if_pos hstring]
    exact readStringBody_stable.map Json.string
  simp only [if_neg hstring]
  by_cases harray : c = '['
  · simp only [if_pos harray]
    by_cases hzero : d = 0
    · simp only [if_pos hzero]
      exact hnever _
    · simp only [if_neg hzero]
      exact array_stable hconsuming hd (readValue_startsPlain d)
  simp only [if_neg harray]
  by_cases hobject : c = '\x7b'
  · simp only [if_pos hobject]
    by_cases hzero : d = 0
    · simp only [if_pos hzero]
      exact hnever _
    · simp only [if_neg hzero]
      exact object_stable hconsuming hd
  · simp only [if_neg hobject]
    exact hnever _

/-- White space before a value is passed over. -/
theorem readValue_of_skipSpace {d : Nat} {u v : Text} {c : Char} (hu : skipSpace u = c :: v) :
    readValue (d + 1) u = readValue (d + 1) (c :: v) := by
  obtain ⟨_, _, _, hc⟩ := skipSpace_eq_cons_iff.1 hu
  rw [readValue, readValue, hu, show skipSpace (c :: v) = c :: v from
    List.dropWhile_cons_of_neg hc]

/-- Blanks at the ends of lines make no difference to a value. -/
theorem readValue_stable (d : Nat) : Stable (readValue d) := by
  induction d with
  | zero =>
    intro s t x rest _ hs
    cases hs
  | succ d ih =>
    intro s t x rest h hs
    cases hskip : skipSpace s with
    | nil =>
      rw [readValue, hskip] at hs
      cases hs
    | cons c cs =>
      obtain ⟨_, _, _, hspace⟩ := skipSpace_eq_cons_iff.1 hskip
      rw [readValue_of_skipSpace hskip] at hs
      have hblank : ¬ isBlank c := fun hblank => readValue_startsPlain _ c cs _ hblank hspace hs
      obtain ⟨cs', hskip', hflow⟩ := h.skipSpace hskip hblank
      rw [readValue_of_skipSpace hskip']
      exact (readValue_cons_stable ih hspace).apply hflow hs

/-- An object starts with a brace. -/
theorem readValue_object_brace {d : Nat} {t rest : Text} {ms : List (Text × Json)}
    (h : readValue d t = .ok (.object ms, rest)) : ∃ cs, skipSpace t = '\x7b' :: cs := by
  cases d with
  | zero => cases h
  | succ d =>
    rw [readValue] at h
    cases hskip : skipSpace t with
    | nil =>
      rw [hskip] at h
      cases h
    | cons c cs =>
      simp only [hskip] at h
      by_cases hc : c = '\x7b'
      · exact ⟨cs, by rw [hc]⟩
      · -- every other first character is that of another value
        have hother {α : Type} {r : Except Failure α} {f : α → Json × Text}
            (hf : ∀ a, (f a).1 ≠ .object ms) (hr : r.map f = .ok (.object ms, rest)) : False := by
          obtain ⟨a, _, ha⟩ := map_eq_ok_iff.1 hr
          exact hf a (by rw [ha])
        split_ifs at h
        · exact (hother (by simp) h).elim
        · exact (hother (by simp) h).elim
        · exact (hother (by simp) h).elim
        · exact (hother (by simp) h).elim
        · exact (hother (by simp) h).elim
        · exact (hother (by simp) h).elim
        · split at h
          · cases h
          · exact (hother (by simp) h).elim

theorem parse_eq_ok_iff {s : Text} {j : Json} :
    parse s = .ok j ↔ ∃ rest, readValue depthLimit s = .ok (j, rest) ∧ skipSpace rest = [] :=
  whole_eq_ok_iff

/-- A text without some of the blanks at the ends of its lines is the same value. -/
theorem parse_reflow {s t : Text} {j : Json} (h : Reflow s t) (hs : parse s = .ok j) :
    parse t = .ok j := by
  obtain ⟨rest, hread, hend⟩ := parse_eq_ok_iff.1 hs
  obtain ⟨rest', ht, hflow⟩ := (readValue_stable depthLimit).apply h hread
  exact parse_eq_ok_iff.2 ⟨rest', ht, hflow.skipSpace_nil hend⟩

namespace Reflow

theorem prepend (p : Text) {s t : Text} (h : Reflow s t) : Reflow (p ++ s) (p ++ t) := by
  induction p with
  | nil => exact h
  | cons c p ih => exact .keep c ih

theorem dropBlanks {blanks s t : Text} (hblanks : ∀ c ∈ blanks, isBlank c) (ht : AtLineEnd t)
    (h : Reflow s t) : Reflow (blanks ++ s) t := by
  induction blanks with
  | nil => exact h
  | cons c cs ih =>
    exact .drop (hblanks c (by simp)) ht (ih fun x hx => hblanks x (List.mem_cons_of_mem c hx))

/-- Lines that each lose blanks at their end. -/
theorem joinWith {ps qs : List Text}
    (h : List.Forall₂ (fun p q => ∃ blanks, p = q ++ blanks ∧ ∀ c ∈ blanks, isBlank c) ps qs) :
    Reflow (Text.joinWith ['\n'] ps) (Text.joinWith ['\n'] qs) := by
  induction h with
  | nil => exact .nil
  | @cons p q ps qs hpq h ih =>
    obtain ⟨blanks, rfl, hblanks⟩ := hpq
    cases h with
    | nil =>
      have hend := dropBlanks hblanks (by simp [AtLineEnd]) .nil
      simpa [Text.joinWith] using hend.prepend q
    | cons hpq' h =>
      rw [joinWith_cons (p := q ++ blanks) (List.cons_ne_nil _ _),
        joinWith_cons (p := q) (List.cons_ne_nil _ _), List.append_assoc, List.append_assoc,
        List.append_assoc]
      exact (dropBlanks hblanks (by simp [AtLineEnd]) (.keep '\n' ih)).prepend q

end Reflow

end Folio.Json
