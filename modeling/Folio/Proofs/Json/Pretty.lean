import Folio.Proofs.Json.Layout
import Folio.Proofs.Json.Literal

namespace Folio.Json

variable {α σ : Type}

mutual

/-- How deep arrays and objects nest in a value. -/
def depth : Json → Nat
  | .array js => depthOfItems js + 1
  | .object ms => depthOfMembers ms + 1
  | .null => 0
  | .bool _ => 0
  | .number _ => 0
  | .string _ => 0

def depthOfItems : List Json → Nat
  | [] => 0
  | j :: js => max (depth j) (depthOfItems js)

def depthOfMembers : List (Text × Json) → Nat
  | [] => 0
  | (_, j) :: ms => max (depth j) (depthOfMembers ms)

end

theorem depth_le_of_mem {j : Json} {js : List Json} (h : j ∈ js) : depth j ≤ depthOfItems js := by
  induction js with
  | nil => cases h
  | cons i js ih =>
    rw [depthOfItems]
    rcases List.mem_cons.1 h with rfl | h
    · exact Nat.le_max_left _ _
    · exact (ih h).trans (Nat.le_max_right _ _)

/-- A value without numbers, in which arrays and objects nest at most so deep. -/
inductive Nests : Nat → Json → Prop
  | null {d : Nat} : Nests d .null
  | bool {d : Nat} (b : Bool) : Nests d (.bool b)
  | string {d : Nat} (s : Text) : Nests d (.string s)
  | array {d : Nat} {js : List Json} : (∀ j ∈ js, Nests d j) → Nests (d + 1) (.array js)
  | object {d : Nat} {ms : List (Text × Json)} : (∀ m ∈ ms, Nests d m.2) → Nests (d + 1) (.object ms)

/-- A reader takes a text for a value, whatever comes after it. -/
def Reads (read : Text → Reading α) (part : Text) (x : α) : Prop :=
  ∀ rest, read (part ++ rest) = .ok (x, rest)

theorem Reads.map {β : Type} {read : Text → Reading α} {part : Text} {x : α}
    (h : Reads read part x) (f : α → β) :
    Reads (fun s => (read s).map fun (x, rest) => (f x, rest)) part (f x) :=
  fun rest => map_eq_ok_iff.2 ⟨(x, rest), h rest, rfl⟩

theorem isSpace_newline (level : Nat) : ∀ c ∈ newline level, isSpace c := by
  intro c hc
  rcases List.mem_cons.1 hc with rfl | hc
  · rfl
  · rw [List.eq_of_mem_replicate hc]
    rfl

theorem skipSpace_newline {c : Char} (hc : ¬ isSpace c) (level : Nat) (cs : Text) :
    skipSpace (newline level ++ c :: cs) = c :: cs :=
  skipSpace_eq_cons_iff.2 ⟨newline level, rfl, isSpace_newline level, hc⟩

/-- What may stand before an item or a member: for the first one nothing but white space. -/
def Leads (first : Bool) (lead : Text) : Prop :=
  ∀ c cs, ¬ isSpace c → NextAt first (lead ++ c :: cs) (c :: cs)

theorem leads_newline (level : Nat) : Leads true (newline level) :=
  fun _ cs hc => skipSpace_newline hc level cs

theorem leads_comma (level : Nat) : Leads false (',' :: newline level) :=
  fun _ cs hc => ⟨_, rfl, skipSpace_newline hc level cs⟩

/-- What an item of an array may start with. -/
def Opens (t : Text) : Prop := ∃ c cs, t = c :: cs ∧ ¬ isSpace c ∧ c ≠ ']'

theorem Nests.opens {d : Nat} {j : Json} (h : Nests d j) (level : Nat) : Opens (prettyAt level j) := by
  cases h with
  | null => exact ⟨'n', _, rfl, by decide⟩
  | bool b => cases b with
    | true => exact ⟨'t', _, rfl, by decide⟩
    | false => exact ⟨'f', _, rfl, by decide⟩
  | string s => exact ⟨'"', _, rfl, by decide⟩
  | @array d js => cases js with
    | nil => exact ⟨'[', _, rfl, by decide⟩
    | cons j js => exact ⟨'[', _, rfl, by decide⟩
  | @object d ms => cases ms with
    | nil => exact ⟨'\x7b', _, rfl, by decide⟩
    | cons m ms => exact ⟨'\x7b', _, rfl, by decide⟩

/-- The pretty form of an array after its opening bracket. -/
def arrayRest (level : Nat) : List Json → Text
  | [] => [']']
  | j :: js => newline (level + 1) ++ (prettyAt (level + 1) j ++
      (prettyItems (level + 1) js ++ (newline level ++ [']'])))

theorem prettyAt_array (level : Nat) (js : List Json) :
    prettyAt level (.array js) = '[' :: arrayRest level js := by
  cases js with
  | nil => rfl
  | cons j js => simp [prettyAt, arrayRest]

theorem length_le_prettyItems (level : Nat) (js : List Json) :
    js.length ≤ (prettyItems level js).length := by
  induction js with
  | nil => exact Nat.le_refl 0
  | cons j js ih =>
    rw [prettyItems, List.length_append, List.length_append, List.length_cons, List.length_cons]
    omega

theorem length_le_arrayRest (level : Nat) (js : List Json) :
    js.length ≤ (arrayRest level js).length := by
  cases js with
  | nil => exact Nat.zero_le _
  | cons j js =>
    have hitems := length_le_prettyItems (level + 1) js
    simp only [arrayRest, List.length_append, List.length_cons, List.length_nil]
    omega

section Items

variable {item : Text → Reading α} {level : Nat} (enc : α → Json)

/-- One round reads one item with what leads to it. -/
theorem readItems_lead {n : Nat} {first : Bool} {lead part rest after : Text} {x : α} {xs : List α}
    (hlead : Leads first lead) (hopens : Opens part) (hread : Reads item part x)
    (hrest : readItems item n false rest = .ok (xs, after)) :
    readItems item (n + 1) first (lead ++ (part ++ rest)) = .ok (x :: xs, after) := by
  obtain ⟨c, cs, rfl, hc, hclose⟩ := hopens
  exact readItems_succ_eq_ok_iff.2 (Or.inr
    ⟨c, cs ++ rest, x, rest, xs, hlead c _ hc, hclose, hread rest, hrest, rfl⟩)

theorem readItems_prettyItems {xs : List α}
    (hread : ∀ x ∈ xs, Reads item (prettyAt level (enc x)) x)
    (hopens : ∀ x ∈ xs, Opens (prettyAt level (enc x))) {n : Nat} (hn : xs.length < n)
    {tail rest : Text} (htail : skipSpace tail = ']' :: rest) :
    readItems item n false (prettyItems level (xs.map enc) ++ tail) = .ok (xs, ']' :: rest) := by
  induction xs generalizing n with
  | nil =>
    obtain ⟨k, rfl⟩ : ∃ k, n = k + 1 := ⟨n - 1, by omega⟩
    exact readItems_succ_eq_ok_iff.2 (Or.inl ⟨rest, htail, rfl, rfl⟩)
  | cons x xs ih =>
    rw [List.length_cons] at hn
    obtain ⟨k, rfl⟩ : ∃ k, n = k + 1 := ⟨n - 1, by omega⟩
    obtain ⟨hx, hxs⟩ := List.forall_mem_cons.1 hread
    obtain ⟨hx', hxs'⟩ := List.forall_mem_cons.1 hopens
    rw [List.map_cons, prettyItems, List.append_assoc, List.append_assoc]
    exact readItems_lead (leads_comma level) hx' hx (ih hxs hxs' (by omega))

/-- The items of an array are read back if each of them is. -/
theorem readItems_arrayRest {xs : List α}
    (hread : ∀ x ∈ xs, Reads item (prettyAt (level + 1) (enc x)) x)
    (hopens : ∀ x ∈ xs, Opens (prettyAt (level + 1) (enc x))) (rest : Text) :
    readItems item ((arrayRest level (xs.map enc) ++ rest).length + 1) true
      (arrayRest level (xs.map enc) ++ rest) = .ok (xs, ']' :: rest) := by
  -- each item takes a character at least, so that the rounds are enough
  have hlength : xs.length ≤ (arrayRest level (xs.map enc) ++ rest).length := by
    have hitems := length_le_arrayRest level (xs.map enc)
    rw [List.length_map] at hitems
    rw [List.length_append]
    omega
  cases xs with
  | nil => exact readItems_succ_eq_ok_iff.2 (Or.inl ⟨rest, rfl, rfl, rfl⟩)
  | cons x xs =>
    obtain ⟨hx, hxs⟩ := List.forall_mem_cons.1 hread
    obtain ⟨hx', hxs'⟩ := List.forall_mem_cons.1 hopens
    have htail : skipSpace (newline level ++ ']' :: rest) = ']' :: rest :=
      skipSpace_newline (by decide) level rest
    generalize (arrayRest level ((x :: xs).map enc) ++ rest).length = n at hlength
    rw [List.length_cons] at hlength
    rw [List.map_cons, arrayRest, List.append_assoc, List.append_assoc, List.append_assoc,
      List.append_assoc]
    exact readItems_lead (leads_newline (level + 1)) hx' hx
      (readItems_prettyItems enc hxs hxs' (by omega) htail)

end Items

/-- The pretty form of an object after its opening brace. -/
def objectRest (level : Nat) : List (Text × Json) → Text
  | [] => ['\x7d']
  | (k, j) :: ms => newline (level + 1) ++ (quote k ++ (": ".toList ++ (prettyAt (level + 1) j ++
      (prettyMembers (level + 1) ms ++ (newline level ++ ['\x7d'])))))

theorem prettyAt_object (level : Nat) (ms : List (Text × Json)) :
    prettyAt level (.object ms) = '\x7b' :: objectRest level ms := by
  cases ms with
  | nil => rfl
  | cons m ms => simp [prettyAt, objectRest]

theorem length_le_prettyMembers (level : Nat) (ms : List (Text × Json)) :
    ms.length ≤ (prettyMembers level ms).length := by
  induction ms with
  | nil => exact Nat.le_refl 0
  | cons m ms ih =>
    simp only [prettyMembers, List.length_append, List.length_cons]
    omega

theorem length_le_objectRest (level : Nat) (ms : List (Text × Json)) :
    ms.length ≤ (objectRest level ms).length := by
  cases ms with
  | nil => exact Nat.zero_le _
  | cons m ms =>
    have hmembers := length_le_prettyMembers (level + 1) ms
    simp only [objectRest, List.length_append, List.length_cons, List.length_nil]
    omega

/-- Steps that read the members of an object in order, each with the space before its value. -/
inductive Steps (step : σ → Text → Text → Reading σ) (level : Nat) :
    σ → List (Text × Json) → σ → Prop
  | nil (x : σ) : Steps step level x [] x
  | cons {x y z : σ} {key : Text} {j : Json} {ms : List (Text × Json)} :
      Reads (step x key) (' ' :: prettyAt level j) y → Steps step level y ms z →
      Steps step level x ((key, j) :: ms) z

section Members

variable {step : σ → Text → Text → Reading σ} {level : Nat}

/-- One round reads one member with what leads to it. -/
theorem foldMembers_lead {n : Nat} {first : Bool} {lead key value rest after : Text} {x y z : σ}
    (hlead : Leads first lead) (hread : Reads (step x key) (' ' :: value) y)
    (hrest : foldMembers step n false y rest = .ok (z, after)) :
    foldMembers step (n + 1) first x
      (lead ++ (quote key ++ (": ".toList ++ (value ++ rest)))) = .ok (z, after) := by
  have hquote : quote key ++ (": ".toList ++ (value ++ rest)) =
      '"' :: (key.flatMap escapeChar ++ '"' :: (": ".toList ++ (value ++ rest))) := by
    rw [quote, List.cons_append, List.append_assoc, List.singleton_append]
  rw [hquote]
  exact foldMembers_succ_eq_ok_iff.2 (Or.inr ⟨_, key, _, ' ' :: (value ++ rest), y, rest,
    hlead '"' _ (by decide), readStringBody_quote key _, rfl, hread rest, hrest⟩)

theorem foldMembers_prettyMembers {ms : List (Text × Json)} {x y : σ}
    (h : Steps step level x ms y) {n : Nat} (hn : ms.length < n) {tail rest : Text}
    (htail : skipSpace tail = '\x7d' :: rest) :
    foldMembers step n false x (prettyMembers level ms ++ tail) = .ok (y, rest) := by
  induction h generalizing n with
  | nil x =>
    obtain ⟨k, rfl⟩ : ∃ k, n = k + 1 := ⟨n - 1, by omega⟩
    exact foldMembers_succ_eq_ok_iff.2 (Or.inl ⟨htail, rfl⟩)
  | cons hread _ ih =>
    rw [List.length_cons] at hn
    obtain ⟨k, rfl⟩ : ∃ k, n = k + 1 := ⟨n - 1, by omega⟩
    simp only [prettyMembers, List.append_assoc]
    exact foldMembers_lead (leads_comma level) hread (ih (by omega))

/-- The members of an object are read back if each of them is. -/
theorem foldMembers_objectRest {ms : List (Text × Json)} {x y : σ}
    (h : Steps step (level + 1) x ms y) (rest : Text) :
    foldMembers step ((objectRest level ms ++ rest).length + 1) true x
      (objectRest level ms ++ rest) = .ok (y, rest) := by
  have hlength : ms.length ≤ (objectRest level ms ++ rest).length := by
    have hmembers := length_le_objectRest level ms
    rw [List.length_append]
    omega
  cases h with
  | nil => exact foldMembers_succ_eq_ok_iff.2 (Or.inl ⟨rfl, rfl⟩)
  | @cons _ z _ key j ms hread hsteps =>
    have htail : skipSpace (newline level ++ '\x7d' :: rest) = '\x7d' :: rest :=
      skipSpace_newline (by decide) level rest
    generalize (objectRest level ((key, j) :: ms) ++ rest).length = n at hlength
    rw [List.length_cons] at hlength
    simp only [objectRest, List.append_assoc]
    exact foldMembers_lead (leads_newline (level + 1)) hread
      (foldMembers_prettyMembers hsteps (by omega) htail)

end Members

theorem readValue_space (d : Nat) (s : Text) : readValue (d + 1) (' ' :: s) = readValue (d + 1) s := by
  rw [readValue, readValue]
  rfl

theorem readValue_quotation (d : Nat) (cs : Text) :
    readValue (d + 1) ('"' :: cs) =
      (readStringBody cs).map fun (t, rest) => (.string t, rest) := by
  rw [readValue]
  rfl

theorem readValue_bracket (d : Nat) (cs : Text) :
    readValue (d + 2) ('[' :: cs) = match readItems (readValue (d + 1)) (cs.length + 1) true cs with
      | .error e => .error e
      | .ok (items, rest) => (closeArray rest).map fun rest' => (.array items, rest') := by
  rw [readValue]
  rfl

theorem readValue_brace (d : Nat) (cs : Text) :
    readValue (d + 2) ('\x7b' :: cs) =
      (foldMembers (memberStep (d + 1)) (cs.length + 1) true [] cs).map
        fun (ms, rest) => (.object ms, rest) := by
  rw [readValue]
  rfl

/-- The members of a value are collected in their order. -/
theorem steps_memberStep {d level : Nat} {ms : List (Text × Json)}
    (h : ∀ m ∈ ms, Reads (readValue (d + 1)) (prettyAt level m.2) m.2) (before : List (Text × Json)) :
    Steps (memberStep (d + 1)) level before ms (before ++ ms) := by
  induction ms generalizing before with
  | nil =>
    rw [List.append_nil]
    exact .nil before
  | cons m ms ih =>
    obtain ⟨key, j⟩ := m
    obtain ⟨hm, hms⟩ := List.forall_mem_cons.1 h
    -- the step gets the space after the colon, which the value may start with
    have hread : Reads (memberStep (d + 1) before key) (' ' :: prettyAt level j)
        (before ++ [(key, j)]) := by
      intro rest
      rw [memberStep, List.cons_append, readValue_space, hm rest]
      rfl
    have hsteps := ih hms (before ++ [(key, j)])
    rw [List.append_assoc, List.singleton_append] at hsteps
    exact .cons hread hsteps

/-- What is printed of a value is read as this value. -/
theorem reads_prettyAt {d : Nat} {j : Json} (h : Nests d j) (level : Nat) :
    Reads (readValue (d + 1)) (prettyAt level j) j := by
  -- on the depth, so that what an array or an object holds is read with one level less
  induction h generalizing level with
  | null => exact fun _ => rfl
  | bool b =>
    cases b with
    | true => exact fun _ => rfl
    | false => exact fun _ => rfl
  | string s =>
    intro rest
    rw [prettyAt, quote, List.cons_append, List.append_assoc, List.singleton_append,
      readValue_quotation, readStringBody_quote]
    rfl
  | @array d js hjs ih =>
    intro rest
    have hitems := readItems_arrayRest id (fun j hj => ih j hj (level + 1))
      (fun j hj => (hjs j hj).opens (level + 1)) rest
    rw [List.map_id] at hitems
    rw [prettyAt_array, List.cons_append, readValue_bracket, hitems]
    rfl
  | @object d ms _ ih =>
    intro rest
    have hsteps := steps_memberStep (fun m hm => ih m hm (level + 1)) []
    rw [List.nil_append] at hsteps
    rw [prettyAt_object, List.cons_append, readValue_brace, foldMembers_objectRest hsteps]
    rfl

/-- A whole text is read back, with white space after it. -/
theorem whole_of_reads {read : Text → Reading α} {part : Text} {x : α} (h : Reads read part x)
    (space : Text) (hspace : skipSpace space = []) : whole read (part ++ space) = .ok x :=
  whole_eq_ok_iff.2 ⟨space, h space, hspace⟩

end Folio.Json
