import Folio.Proofs.Script.Calls

namespace Folio

namespace ScriptFault

/-- The line that a fault names. -/
def line? : ScriptFault → Option Nat
  | unlisted _ => none
  | malformed line _ => some line
  | unknownFunction line _ => some line
  | missingArgument line _ => some line
  | argument line _ => some line
  | outsideDocument _ => none

/-- The same fault a number of lines further down. -/
def shift (k : Nat) : ScriptFault → ScriptFault
  | unlisted fault => unlisted fault
  | malformed line text => malformed (line + k) text
  | unknownFunction line name => unknownFunction (line + k) name
  | missingArgument line name => missingArgument (line + k) name
  | argument line error => argument (line + k) error
  | outsideDocument path => outsideDocument path

end ScriptFault

namespace Script

variable {v : View} {line : Nat} {b b' : Buffers} {l m : Text} {ls ms : List Text}
  {fault : ScriptFault}

/-- The outcome of the same lines further down. -/
def Outcome.shift (k : Nat) (o : Outcome) : Outcome := ⟨o.buffers, o.fault.map (·.shift k)⟩

theorem parseCall_line {t : Text} (h : parseCall line t = .error fault) : fault.line? = some line := by
  by_cases hcall : ∃ n i, CallText t n i
  · obtain ⟨n, i, hcall⟩ := hcall
    obtain ⟨-, e, -, rfl⟩ := hcall.parseCall_error_iff.1 h
    rfl
  · rw [parseCall_malformed fun n i hni => hcall ⟨n, i, hni⟩] at h
    obtain rfl := Except.error.inj h
    rfl

theorem parseCall_shift (k : Nat) (t : Text) :
    parseCall (line + k) t = (parseCall line t).mapError (·.shift k) := by
  by_cases hcall : ∃ n i, CallText t n i
  · obtain ⟨n, i, hcall⟩ := hcall
    rw [hcall.parseCall_eq, hcall.parseCall_eq]
    split_ifs
    · rfl
    · cases Json.whole Json.readText (Text.trim i) <;> rfl
  · have hnone : ∀ n i, ¬ CallText t n i := fun n i hni => hcall ⟨n, i, hni⟩
    rw [parseCall_malformed hnone, parseCall_malformed hnone]
    rfl

/-- A listing fails for what it is asked for, wherever it is asked. -/
theorem View.list_fault {a : Text} (h : (v.list a).value = .error fault) :
    fault.line? = none ∧ ∀ k, fault.shift k = fault := by
  unfold View.list at h
  split at h
  · dsimp only at h
    cases hfound : (Listing.list v.workspace (v.base.join ⟨a⟩) v.extension).value with
    | error e =>
      rw [hfound] at h
      obtain rfl := Except.error.inj h
      exact ⟨rfl, fun _ => rfl⟩
    | ok entries =>
      rw [hfound] at h
      cases h
  · obtain rfl := Except.error.inj h
    exact ⟨rfl, fun _ => rfl⟩

theorem perform_line {c : Call} (h : (perform v line c b).value = .error fault) :
    ∀ n ∈ fault.line?, n = line := by
  intro n hn
  rcases perform_cases v c with ⟨g, hg⟩ | ⟨g, hg⟩ | hg <;> rw [hg] at h
  · change given line c _ = _ at h
    unfold given at h
    cases hargument : c.argument with
    | some a =>
      rw [hargument] at h
      cases h
    | none =>
      rw [hargument] at h
      obtain rfl := Except.error.inj h
      exact (Option.some.inj hn).symm
  · dsimp only at h
    cases hfound : (v.list (c.argument.getD ['.'])).value with
    | error e =>
      rw [hfound] at h
      obtain rfl := Except.error.inj h
      rw [(View.list_fault hfound).1] at hn
      cases hn
    | ok entries =>
      rw [hfound] at h
      cases h
  · obtain rfl := Except.error.inj h
    exact (Option.some.inj hn).symm

theorem perform_shift (k : Nat) (c : Call) :
    perform v (line + k) c b =
      ⟨(perform v line c b).value.mapError (·.shift k), (perform v line c b).log⟩ := by
  rcases perform_cases v c with ⟨g, hg⟩ | ⟨g, hg⟩ | hg <;> rw [hg, hg]
  · refine congrArg (Logged.mk · []) ?_
    unfold given
    cases c.argument <;> rfl
  · dsimp only
    cases hfound : (v.list (c.argument.getD ['.'])).value with
    | error e =>
      -- faults of listings name no line
      change (⟨.error e, _⟩ : Logged (Except ScriptFault Buffers)) = ⟨.error (e.shift k), _⟩
      rw [(View.list_fault hfound).2 k]
    | ok entries => rfl
  · rfl

theorem runLine_line (h : (runLine v line b l).value = .error fault) :
    ∀ n ∈ fault.line?, n = line := by
  unfold runLine at h
  split at h
  · cases h
  · cases hparse : parseCall line (Text.trim l) with
    | error fault' =>
      rw [hparse] at h
      obtain rfl : fault' = fault := Except.error.inj h
      intro n hn
      rw [parseCall_line hparse] at hn
      exact (Option.some.inj hn).symm
    | ok c =>
      rw [hparse] at h
      exact perform_line h

theorem runLine_shift (k : Nat) :
    runLine v (line + k) b l =
      ⟨(runLine v line b l).value.mapError (·.shift k), (runLine v line b l).log⟩ := by
  unfold runLine
  split
  · rfl
  · rw [parseCall_shift]
    cases parseCall line (Text.trim l) with
    | error fault => rfl
    | ok c => exact perform_shift k c

/-- Further down, the same lines do the same and name their faults further down. -/
theorem runLines_shift (k : Nat) :
    runLines v (line + k) b ls =
      ⟨(runLines v line b ls).value.shift k, (runLines v line b ls).log⟩ := by
  induction ls generalizing line b with
  | nil => rfl
  | cons l ls ih =>
    have hline : runLine v (line + k) b l = _ := runLine_shift k
    cases hx : (runLine v line b l).value with
    | error fault =>
      rw [hx] at hline
      rw [runLines_stop hx, runLines_stop (congrArg Logged.value hline), hline]
      rfl
    | ok b' =>
      rw [hx] at hline
      rw [runLines_go hx, runLines_go (congrArg Logged.value hline), hline,
        Nat.add_right_comm, ih]

/-- Blanks around a line make no difference. -/
theorem runLine_congr (h : Text.trim l = Text.trim m) :
    runLine v line b l = runLine v line b m := by
  unfold runLine isIdle
  rw [h]

theorem runLines_cons_congr (hl : Text.trim l = Text.trim m)
    (hls : ∀ line b, runLines v line b ls = runLines v line b ms) :
    runLines v line b (l :: ls) = runLines v line b (m :: ms) := by
  have hsame : runLine v line b l = runLine v line b m := runLine_congr hl
  cases hx : (runLine v line b m).value with
  | error fault => rw [runLines_stop hx, runLines_stop (hsame ▸ hx), hsame]
  | ok b' => rw [runLines_go hx, runLines_go (hsame ▸ hx), hsame, hls]

theorem runLines_map_dropReturn : runLines v line b (ls.map Text.dropReturn) = runLines v line b ls := by
  induction ls generalizing line b with
  | nil => rfl
  | cons l ls ih => exact runLines_cons_congr (Text.trim_dropReturn l) fun _ _ => ih

theorem runLines_closed (h : Text.Closed ls ms) : runLines v line b ls = runLines v line b ms := by
  induction h generalizing line b with
  | nil => rfl
  | blank =>
    -- an empty last piece is no line of the text, and as a line it would do nothing
    have hidle : isIdle [] := by decide
    rw [runLines_idle hidle]
    rfl
  | last l => exact runLines_cons_congr (Text.trim_dropReturn l).symm fun _ _ => rfl
  | cons l _ ih => exact runLines_cons_congr rfl fun _ _ => ih

/-- For a script, the lines of a text are the pieces between its line feeds. -/
theorem run_eq (v : View) (code : Text) (b : Buffers) :
    caller.run v code b = runLines v 1 b (Text.splitOn '\n' code) :=
  calc runLines v 1 b (Text.lines code)
    _ = runLines v 1 b (Text.ended code) := runLines_closed (Text.closed_ended code)
    _ = runLines v 1 b (Text.splitOn '\n' code) := runLines_map_dropReturn

theorem run_joinWith (h : ∀ l ∈ ls, '\n' ∉ l) :
    caller.run v (Text.joinWith ['\n'] ls) b = runLines v 1 b ls := by
  by_cases hls : ls = []
  · subst hls
    rfl
  · rw [run_eq, Text.splitOn_joinWith hls h]

theorem run_append (v : View) (code : Text) (b : Buffers) :
    (caller.run v code b).value.buffers =
      b.append (caller.run v code .empty).value.buffers := by
  have happends := appends_caller v code b .empty
  rw [b.append_empty] at happends
  rw [happends]
  rfl

/-- A script on the lines after another one that runs to its end. -/
theorem run_sequence {c₁ : Text} (h : (caller.run v c₁ b).value = ⟨b', none⟩) (c₂ : Text) :
    caller.run v (c₁ ++ '\n' :: c₂) b =
      ⟨(caller.run v c₂ b').value.shift (1 + c₁.count '\n'),
        (caller.run v c₁ b).log ++ (caller.run v c₂ b').log⟩ := by
  rw [run_eq] at h
  rw [run_eq, run_eq, run_eq, Text.splitOn_append_cons, runLines_concat h, Text.length_splitOn,
    runLines_shift, Nat.add_comm 1]

/-- Lines that stop have run up to one of them, which fails. -/
theorem runLines_stops (h : (runLines v line b ls).value = ⟨b', some fault⟩) :
    ∃ before l after, ls = before ++ l :: after ∧
      (runLines v line b before).value = ⟨b', none⟩ ∧
      (runLine v (line + before.length) b' l).value = .error fault := by
  -- on the lines; a line that does not fail is one more of those before
  induction ls generalizing line b with
  | nil => cases congrArg Outcome.fault h
  | cons l ls ih =>
    cases hx : (runLine v line b l).value with
    | error fault' =>
      rw [runLines_stop hx] at h
      obtain ⟨rfl, hfault⟩ := Outcome.mk.inj h
      obtain rfl := Option.some.inj hfault
      exact ⟨[], l, ls, rfl, rfl, hx⟩
    | ok next =>
      rw [runLines_go hx] at h
      obtain ⟨before, l', after, rfl, hbefore, hfails⟩ := ih h
      refine ⟨l :: before, l', after, rfl, ?_, ?_⟩
      · rw [runLines_go hx]
        exact hbefore
      · rw [List.length_cons, Nat.add_comm before.length, ← Nat.add_assoc]
        exact hfails

/-- Scripts run line by line. They only append; a script on the lines after another one that runs to
its end does what it does alone on what the first has left, with its faults further down; and a
script that stops has a line that it stops at, has left what the lines before this one leave alone,
and names no other line. -/
theorem run_stepwise (v : View) (b : Buffers) :
    (∀ code, b.head <+: (caller.run v code b).value.buffers.head ∧
      b.body <+: (caller.run v code b).value.buffers.body) ∧
    (∀ c₁ c₂ b', (caller.run v c₁ b).value = ⟨b', none⟩ →
      caller.run v (c₁ ++ '\n' :: c₂) b =
        ⟨(caller.run v c₂ b').value.shift (1 + c₁.count '\n'),
          (caller.run v c₁ b).log ++ (caller.run v c₂ b').log⟩) ∧
    ∀ code b' fault, (caller.run v code b).value = ⟨b', some fault⟩ →
      ∃ before l after, Text.lines code = before ++ l :: after ∧
        (caller.run v (Text.joinWith ['\n'] before) b).value = ⟨b', none⟩ ∧
        (runLines v (before.length + 1) b' [l]).value = ⟨b', some fault⟩ ∧
        ∀ n ∈ fault.line?, n = before.length + 1 := by
  refine ⟨?_, ?_, ?_⟩
  · intro code
    rw [run_append]
    exact ⟨List.prefix_append _ _, List.prefix_append _ _⟩
  · exact fun c₁ c₂ b' h => run_sequence h c₂
  · intro code b' fault h
    have hrun : (runLines v 1 b (Text.lines code)).value = ⟨b', some fault⟩ := h
    obtain ⟨before, l, after, hlines, hbefore, hfails⟩ := runLines_stops hrun
    rw [Nat.add_comm 1] at hfails
    refine ⟨before, l, after, hlines, ?_, ?_, runLine_line hfails⟩
    · rw [run_joinWith]
      · exact hbefore
      · intro m hm
        apply Text.newline_not_mem_of_mem_lines (t := code)
        rw [hlines]
        exact List.mem_append_left _ hm
    · rw [runLines_stop hfails]

/-- A script with a blank line and a comment. -/
def noted : Text := "html(\"a\")\n\n// note".toList

/-- A script that stops at its second line. -/
def unquoted : Text := "html(\"b\")\nhtml(c)\nhtml(\"d\")".toList

/-- The script that stops, after the other one: it stops at the fifth line, and what the four lines
before it write is there. -/
theorem run_stepwise_noted :
    (caller.run blankView noted .empty).value = ⟨⟨[], [['a']]⟩, none⟩ ∧
    (caller.run blankView (noted ++ '\n' :: unquoted) .empty).value =
      ⟨⟨[], [['a'], ['b']]⟩, some (.argument 5 ⟨.expectedValue, 1, 1⟩)⟩ ∧
    ∃ before l after, Text.lines (noted ++ '\n' :: unquoted) = before ++ l :: after ∧
      (caller.run blankView (Text.joinWith ['\n'] before) .empty).value =
        ⟨⟨[], [['a'], ['b']]⟩, none⟩ ∧
      5 = before.length + 1 := by
  have houtcome {o : Outcome} {b : Buffers} {fault : Option ScriptFault} (hb : o.buffers = b)
      (hfault : o.fault = fault) : o = ⟨b, fault⟩ := by rw [← hb, ← hfault]
  obtain ⟨-, hsequence, hstops⟩ := run_stepwise blankView .empty
  have hfirst : (caller.run blankView noted .empty).value = ⟨⟨[], [['a']]⟩, none⟩ :=
    houtcome (by decide +kernel) (by decide +kernel)
  have hsecond : (caller.run blankView unquoted ⟨[], [['a']]⟩).value =
      ⟨⟨[], [['a'], ['b']]⟩, some (.argument 2 ⟨.expectedValue, 1, 1⟩)⟩ :=
    houtcome (by decide +kernel) (by decide +kernel)
  have hboth : (caller.run blankView (noted ++ '\n' :: unquoted) .empty).value =
      ⟨⟨[], [['a'], ['b']]⟩, some (.argument 5 ⟨.expectedValue, 1, 1⟩)⟩ := by
    rw [hsequence noted unquoted _ hfirst, hsecond]
    rfl
  obtain ⟨before, l, after, hlines, hbefore, -, hline⟩ := hstops _ _ _ hboth
  exact ⟨hfirst, hboth, before, l, after, hlines, hbefore, hline 5 rfl⟩

end Script
end Folio
