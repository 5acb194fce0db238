import Folio.Proofs.Json.Literal
import Folio.Proofs.Page.Appending
import Folio.Proofs.Text.Lines

namespace Folio.Script

open Json

/-- A line that is a name before the first parenthesis, and something up to a last parenthesis. -/
structure CallText (t n i : Text) : Prop where
  cut : t = n ++ '(' :: (i ++ [')'])
  first : '(' ∉ n
  named : Text.trim n ≠ []
  plain : ∀ c ∈ Text.trim n, c.isAlphanum ∨ c = '_'

/-- What may stand in the parentheses, and the argument that it gives. -/
inductive ArgumentText : Text → Option Text → Prop
  | absent : ArgumentText [] none
  | string {j s : Text} : IsLiteral j s → ArgumentText j (some s)

variable {line : Nat} {t n i j s : Text}

theorem isFunctionName_iff : isFunctionName t ↔ t ≠ [] ∧ ∀ c ∈ t, c.isAlphanum ∨ c = '_' := by
  simp [isFunctionName, Text.isAsciiAlphanumeric]

theorem CallText.of_name (hcut : t = n ++ '(' :: (i ++ [')'])) (hfirst : '(' ∉ n)
    (hname : isFunctionName (Text.trim n)) : CallText t n i :=
  ⟨hcut, hfirst, (isFunctionName_iff.1 hname).1, (isFunctionName_iff.1 hname).2⟩

theorem ArgumentText.iff_nil {a : Option Text} : ArgumentText [] a ↔ a = none := by
  constructor
  · rintro (_ | hj)
    · rfl
    · exact absurd rfl hj.ne_nil
  · rintro rfl
    exact .absent

theorem ArgumentText.iff_of_ne_nil {a : Option Text} (h : j ≠ []) :
    ArgumentText j a ↔ ∃ s, IsLiteral j s ∧ a = some s := by
  constructor
  · rintro (_ | hj)
    · exact absurd rfl h
    · exact ⟨_, hj, rfl⟩
  · rintro ⟨s, hj, rfl⟩
    exact .string hj

theorem CallText.splitFirst?_eq (h : CallText t n i) :
    Text.splitFirst? (· = '(') t = some (n, i ++ [')']) := by
  refine Text.splitFirst?_eq_some_iff.2 ⟨'(', h.cut, by simp, ?_⟩
  intro c hc hopen
  obtain rfl := of_decide_eq_true hopen
  exact h.first hc

/-- A line is a call in one way. -/
theorem CallText.unique {n' i' : Text} (h : CallText t n i) (h' : CallText t n' i') :
    n = n' ∧ i = i' := by
  have hsame := h.splitFirst?_eq.symm.trans h'.splitFirst?_eq
  obtain ⟨hn, hi⟩ := Prod.mk.inj (Option.some.inj hsame)
  exact ⟨hn, List.append_cancel_right hi⟩

/-- Of a line in the form of a call, only the argument can be refused. -/
theorem CallText.parseCall_eq (h : CallText t n i) :
    parseCall line t =
      if Text.trim i = [] then .ok ⟨Text.trim n, none⟩
      else match whole readText (Text.trim i) with
        | .error e => .error (.argument line e)
        | .ok s => .ok ⟨Text.trim n, some s⟩ := by
  have hsplit := h.splitFirst?_eq
  have hstrip : Text.stripSuffix? [')'] (i ++ [')']) = some i := Text.stripSuffix?_eq_some_iff.2 rfl
  have hname : isFunctionName (Text.trim n) = true := isFunctionName_iff.2 ⟨h.named, h.plain⟩
  have hread : parseCall line t = if (Text.trim i).isEmpty then .ok ⟨Text.trim n, none⟩
      else match whole readText (Text.trim i) with
        | .error e => .error (.argument line e)
        | .ok s => .ok ⟨Text.trim n, some s⟩ := by
    unfold parseCall
    rw [hsplit]
    dsimp only
    rw [hstrip]
    dsimp only
    rw [hname]
    exact if_neg Bool.false_ne_true
  by_cases hi : Text.trim i = []
  · exact hread.trans ((if_pos (List.isEmpty_iff.2 hi)).trans (if_pos hi).symm)
  · exact hread.trans ((if_neg (mt List.isEmpty_iff.1 hi)).trans (if_neg hi).symm)

/-- Any other line is refused as a whole. -/
theorem parseCall_malformed (h : ∀ n i, ¬ CallText t n i) :
    parseCall line t = .error (.malformed line t) := by
  unfold parseCall
  cases hsplit : Text.splitFirst? (· = '(') t with
  | none => rfl
  | some found =>
    obtain ⟨n, rest⟩ := found
    dsimp only
    cases hstrip : Text.stripSuffix? [')'] rest with
    | none => rfl
    | some i =>
      dsimp only
      apply if_pos
      obtain rfl := Text.stripSuffix?_eq_some_iff.1 hstrip
      obtain ⟨c, hcut, hc, hfirst⟩ := Text.splitFirst?_eq_some_iff.1 hsplit
      obtain rfl := of_decide_eq_true hc
      -- a proper name would make the line a call
      rw [Bool.not_eq_true', Bool.eq_false_iff]
      intro hname
      exact h n i (.of_name hcut (fun hmem => hfirst _ hmem (decide_eq_true rfl)) hname)

theorem CallText.parseCall_ok_iff (h : CallText t n i) {c : Call} :
    parseCall line t = .ok c ↔ c.name = Text.trim n ∧ ArgumentText (Text.trim i) c.argument := by
  obtain ⟨name, argument⟩ := c
  rw [h.parseCall_eq]
  by_cases hi : Text.trim i = []
  · rw [if_pos hi, hi, ArgumentText.iff_nil, Except.ok.injEq, Call.mk.injEq]
    exact and_congr eq_comm eq_comm
  · rw [if_neg hi, ArgumentText.iff_of_ne_nil hi]
    have hread (s : Text) := whole_readText_trimmed_iff (s := s) (Text.trimmed_trim i)
    cases hx : whole readText (Text.trim i) with
    | error e =>
      constructor
      · rintro ⟨⟩
      · rintro ⟨-, s, hs, -⟩
        rw [(hread s).2 hs] at hx
        cases hx
    | ok s =>
      constructor
      · rintro ⟨⟩
        exact ⟨rfl, s, (hread s).1 hx, rfl⟩
      · rintro ⟨rfl, s', hs', rfl⟩
        rw [(hread s').2 hs'] at hx
        cases hx
        rfl

theorem CallText.parseCall_error_iff (h : CallText t n i) {fault : ScriptFault} :
    parseCall line t = .error fault ↔ Text.trim i ≠ [] ∧ ∃ e, whole readText (Text.trim i) = .error e ∧
      fault = .argument line e := by
  rw [h.parseCall_eq]
  by_cases hi : Text.trim i = []
  · simp [hi]
  · rw [if_neg hi]
    cases whole readText (Text.trim i) with
    | error e =>
      rw [Except.error.injEq]
      constructor
      · rintro rfl
        exact ⟨hi, e, rfl, rfl⟩
      · rintro ⟨-, e', he, rfl⟩
        cases he
        rfl
    | ok s => simp

/-- A line in the form of a call is refused exactly if nothing is written in its parentheses that
gives an argument. -/
theorem CallText.parseCall_argument_iff (h : CallText t n i) :
    (∃ e, parseCall line t = .error (.argument line e)) ↔ ∀ a, ¬ ArgumentText (Text.trim i) a := by
  constructor
  · rintro ⟨e, he⟩ a ha
    have hok : parseCall line t = .ok ⟨Text.trim n, a⟩ ↔ _ := h.parseCall_ok_iff
    rw [he] at hok
    cases hok.2 ⟨rfl, ha⟩
  · intro hnone
    cases hx : parseCall line t with
    | ok c => exact absurd (h.parseCall_ok_iff.1 hx).2 (hnone _)
    | error fault =>
      obtain ⟨-, e, -, rfl⟩ := h.parseCall_error_iff.1 hx
      exact ⟨e, rfl⟩

/-- The line that writes a string into the body. -/
def writing (j : Text) : Text := "html(".toList ++ (j ++ [')'])

theorem callText_writing (j : Text) : CallText (writing j) "html".toList j :=
  .of_name rfl (by decide) rfl

theorem trimmed_writing (j : Text) : Text.Trimmed (writing j) := by
  constructor
  · intro c hc
    obtain rfl := Option.some.inj hc
    decide
  · intro c hc
    rw [writing, ← List.append_assoc, List.getLast?_concat] at hc
    obtain rfl := Option.some.inj hc
    decide

theorem not_isIdle_writing (j : Text) : ¬ isIdle (writing j) := by
  rw [isIdle, (trimmed_writing j).trim_eq]
  exact Bool.false_ne_true

theorem runLines_writing (h : IsLiteral j s) (v : View) (b : Buffers) (ls : List Text) :
    runLines v line b (writing j :: ls) = runLines v (line + 1) (b.pushBody s) ls := by
  have hargument : ArgumentText (Text.trim j) (some s) := by
    rw [h.trimmed.trim_eq]
    exact .string h
  have hparse : parseCall line (Text.trim (writing j)) = .ok ⟨"html".toList, some s⟩ := by
    rw [(trimmed_writing j).trim_eq]
    exact (callText_writing j).parseCall_ok_iff.2 ⟨rfl, hargument⟩
  have hcall : (perform v line ⟨"html".toList, some s⟩ b).value = .ok (b.pushBody s) := rfl
  rw [runLines_done (not_isIdle_writing j) hparse hcall]
  rfl

theorem lines_writing (h : IsLiteral j s) : Text.lines (writing j) = [writing j] := by
  refine Text.lines_of_not_mem (List.cons_ne_nil _ _) ?_
  rw [writing, List.mem_append, List.mem_append, not_or, not_or]
  exact ⟨by decide, h.newline_not_mem, by decide⟩

theorem run_writing (h : IsLiteral j s) (v : View) (b : Buffers) :
    caller.run v (writing j) b = .pure ⟨b.pushBody s, none⟩ := by
  change runLines v 1 b (Text.lines (writing j)) = _
  rw [lines_writing h, runLines_writing h]
  rfl

/-- The lines that are read as calls. A line is a call of a name with an argument exactly if the name
stands before its first parenthesis, and what gives the argument up to a last one. Where only the
argument is wrong, this is what is reported, and otherwise the line is. So every string can be written
into the body as it is, whatever is in it, by any of its literals. -/
theorem parseCall_grammar :
    (∀ (line : Nat) (t : Text),
      (∀ c, parseCall line t = .ok c ↔ ∃ n i, CallText t n i ∧ c.name = Text.trim n ∧
        ArgumentText (Text.trim i) c.argument) ∧
      ((∃ e, parseCall line t = .error (.argument line e)) ↔
        ∃ n i, CallText t n i ∧ ∀ a, ¬ ArgumentText (Text.trim i) a) ∧
      (parseCall line t = .error (.malformed line t) ↔ ∀ n i, ¬ CallText t n i) ∧
      ∀ fault, parseCall line t = .error fault →
        fault = .malformed line t ∨ ∃ e, fault = .argument line e) ∧
    (∀ s, ∃ j, IsLiteral j s) ∧
    ∀ j s, IsLiteral j s → ∀ (v : View) (b : Buffers),
      caller.run v (writing j) b = .pure ⟨b.pushBody s, none⟩ ∧
      ∀ line ls, runLines v line b (writing j :: ls) = runLines v (line + 1) (b.pushBody s) ls := by
  refine ⟨?_, fun s => ⟨_, isLiteral_quote s⟩, ?_⟩
  · intro line t
    by_cases h : ∃ n i, CallText t n i
    · obtain ⟨n, i, h⟩ := h
      -- the cut is the only one, so that a statement about some cut is one about this one
      have hcut (P : Text → Text → Prop) : (∃ n i, CallText t n i ∧ P n i) ↔ P n i := by
        constructor
        · rintro ⟨n', i', h', hP⟩
          obtain ⟨rfl, rfl⟩ := h.unique h'
          exact hP
        · exact fun hP => ⟨n, i, h, hP⟩
      refine ⟨?_, ?_, ?_, ?_⟩
      · intro c
        rw [hcut fun n i => c.name = Text.trim n ∧ ArgumentText (Text.trim i) c.argument]
        exact h.parseCall_ok_iff
      · rw [hcut fun _ i => ∀ a, ¬ ArgumentText (Text.trim i) a]
        exact h.parseCall_argument_iff
      · constructor
        · intro hmalformed
          obtain ⟨-, e, -, he⟩ := h.parseCall_error_iff.1 hmalformed
          cases he
        · exact fun hnone => absurd h (hnone n i)
      · intro fault hfault
        obtain ⟨-, e, -, rfl⟩ := h.parseCall_error_iff.1 hfault
        exact Or.inr ⟨e, rfl⟩
    · have hnone : ∀ n i, ¬ CallText t n i := fun n i hni => h ⟨n, i, hni⟩
      rw [parseCall_malformed hnone]
      refine ⟨?_, ?_, ?_, ?_⟩
      · intro c
        constructor
        · rintro ⟨⟩
        · rintro ⟨n, i, hni, -⟩
          exact absurd hni (hnone n i)
      · constructor
        · rintro ⟨e, ⟨⟩⟩
        · rintro ⟨n, i, hni, -⟩
          exact absurd hni (hnone n i)
      · exact iff_of_true rfl hnone
      · rintro fault ⟨⟩
        exact Or.inl rfl
  · intro j s h v b
    exact ⟨run_writing h v b, fun line ls => runLines_writing h v b ls⟩

/-- A view of no files and no variables. -/
def blankView : View := ⟨⟨FileTree.empty, []⟩, ⟨['.']⟩, "sphst".toList, [], []⟩

/-- An argument with blanks around it and a parenthesis in it, an argument that is no string, a line
with a name of two words, and a string that is written with comment signs and escapes. -/
theorem parseCall_grammar_lines :
    parseCall 3 "h2 ( \"a)\" )".toList = .ok ⟨"h2".toList, some "a)".toList⟩ ∧
    (∃ e, parseCall 1 "html(\"a\") // (b)".toList = .error (.argument 1 e)) ∧
    parseCall 1 "h 2()".toList = .error (.malformed 1 "h 2()".toList) ∧
    IsLiteral "\"//(\\u0022)\\n\"".toList "//(\")\n".toList ∧
    caller.run blankView "html(\"//(\\u0022)\\n\")".toList .empty =
      .pure ⟨⟨[], ["//(\")\n".toList]⟩, none⟩ := by
  obtain ⟨hlines, -, hwriting⟩ := parseCall_grammar
  have hliteral : IsLiteral "\"//(\\u0022)\\n\"".toList "//(\")\n".toList := by
    refine (whole_readText_trimmed_iff (Text.trim_eq_self_iff.1 (by decide))).1 ?_
    decide +kernel
  have hstring : IsLiteral "\"a)\"".toList "a)".toList := by
    refine (whole_readText_trimmed_iff (Text.trim_eq_self_iff.1 (by decide))).1 ?_
    decide +kernel
  refine ⟨?_, ?_, ?_, hliteral, (hwriting _ _ hliteral blankView .empty).1⟩
  · refine ((hlines 3 _).1 _).2 ⟨"h2 ".toList, " \"a)\" ".toList, ?_, by decide, .string hstring⟩
    exact .of_name (by decide) (by decide) (by decide)
  · refine (hlines 1 _).2.1.2 ⟨"html".toList, "\"a\") // (b".toList, ?_, ?_⟩
    · exact .of_name (by decide) (by decide) (by decide)
    · intro a ha
      obtain ⟨s, hs, -⟩ := (ArgumentText.iff_of_ne_nil (by decide)).1 ha
      have hread :=
        (whole_readText_trimmed_iff (Text.trimmed_trim "\"a\") // (b".toList)).2 hs
      have hfails : (whole readText (Text.trim "\"a\") // (b".toList)).isOk = false := by
        decide +kernel
      rw [hread] at hfails
      cases hfails
  · refine (hlines 1 _).2.2.1.2 ?_
    intro n i h
    -- the name would have a blank in it
    obtain rfl : "h 2".toList = n := (Prod.mk.inj (Option.some.inj h.splitFirst?_eq)).1
    exact absurd (h.plain ' ' (by decide)) (by decide)

end Folio.Script
