import Folio.Document.Page

namespace Folio.Script

namespace Buffers

/-- The fragments of both, in order. -/
def append (b c : Buffers) : Buffers := ⟨b.head ++ c.head, b.body ++ c.body⟩

variable (b c : Buffers) (t : Text)

theorem append_empty : b.append empty = b := by
  rw [append, empty, List.append_nil, List.append_nil]

theorem append_assoc (d : Buffers) : (b.append c).append d = b.append (c.append d) := by
  unfold append
  simp only [List.append_assoc]

theorem pushBody_eq : b.pushBody t = b.append ⟨[], [t]⟩ := by
  rw [pushBody, append, List.append_nil]

theorem pushHead_eq : b.pushHead t = b.append ⟨[t], []⟩ := by
  rw [pushHead, append, List.append_nil]

end Buffers

/-- The outcome with the fragments of other buffers before its own. -/
def Outcome.after (b : Buffers) (o : Outcome) : Outcome := ⟨b.append o.buffers, o.fault⟩

/-- What a function leaves that needs an argument. -/
def given (line : Nat) (c : Call) (f : Text → Buffers) : Except ScriptFault Buffers :=
  match c.argument with
  | some a => .ok (f a)
  | none => .error (.missingArgument line c.name)

/-- What a call may do: append what an argument gives that it needs, or what a listing gives; any
other call is of an unknown function. What is appended depends neither on the line nor on the buffers. -/
theorem perform_cases (v : View) (c : Call) :
    (∃ g : Text → Buffers, ∀ line b,
      perform v line c b = .pure (given line c fun a => b.append (g a))) ∨
    (∃ g : List ListingEntry → Buffers, ∀ line b, perform v line c b =
      ⟨(v.list (c.argument.getD ['.'])).value.map fun entries => b.append (g entries),
        (v.list (c.argument.getD ['.'])).log⟩) ∨
    ∀ line b, perform v line c b = .pure (.error (.unknownFunction line c.name)) := by
  have hbody (b : Buffers) {α : Type} (f : α → Text) :
      (fun a => b.pushBody (f a)) = fun a => b.append ⟨[], [f a]⟩ :=
    funext fun a => b.pushBody_eq (f a)
  have hhead (b : Buffers) (f : Text → Text) :
      (fun a => b.pushHead (f a)) = fun a => b.append ⟨[f a], []⟩ :=
    funext fun a => b.pushHead_eq (f a)
  have hgiven {f g : Buffers → Text → Buffers} (h : ∀ b, f b = g b) (line : Nat) (b : Buffers) :
      (.pure (given line c (f b)) : Logged (Except ScriptFault Buffers)) =
        .pure (given line c (g b)) := by rw [h b]
  unfold perform
  dsimp only
  cases headingLevel? c.name with
  | some level => exact Or.inl ⟨_, hgiven fun b => hbody b (Directive.headingMarkup level)⟩
  | none =>
    dsimp only
    split
    · exact Or.inl ⟨_, hgiven fun b => hbody b id⟩
    · split
      · exact Or.inl ⟨_, hgiven fun b => hhead b id⟩
      · split
        · exact Or.inl ⟨_, hgiven fun b => hhead b stylesheetLink⟩
        · split
          · exact Or.inl ⟨_, hgiven fun b => hbody b fun a => (v.valueOf? a).getD []⟩
          · split
            · refine Or.inr (Or.inl ⟨fun entries =>
                ⟨[], [listingMarkup (c.argument.getD ['.']) entries v.extension]⟩, fun _ b => ?_⟩)
              rw [hbody b fun entries => listingMarkup (c.argument.getD ['.']) entries v.extension]
            · exact Or.inr (Or.inr fun _ _ => rfl)

/-- A call reads nothing of the buffers. -/
theorem perform_append (v : View) (line : Nat) (c : Call) (b b' : Buffers) :
    perform v line c (b.append b') =
      ⟨(perform v line c b').value.map b.append, (perform v line c b').log⟩ := by
  rcases perform_cases v c with ⟨g, hg⟩ | ⟨g, hg⟩ | hg <;> rw [hg, hg]
  · refine congrArg (Logged.mk · []) ?_
    unfold given
    cases c.argument with
    | none => rfl
    | some a => exact congrArg Except.ok (b.append_assoc b' (g a))
  · refine congrArg (Logged.mk · _) ?_
    cases (v.list (c.argument.getD ['.'])).value with
    | error fault => rfl
    | ok entries => exact congrArg Except.ok (b.append_assoc b' (g entries))
  · rfl

section Lines

/-- A line of a script that does nothing: a blank one or a comment. -/
def isIdle (l : Text) : Bool :=
  (Text.trim l).isEmpty || (Text.stripPrefix? ['/', '/'] (Text.trim l)).isSome

variable {v : View} {line : Nat} {b b' : Buffers} {l : Text} {ls : List Text} {c : Call}
  {fault : ScriptFault}

theorem runLines_idle (h : isIdle l) : runLines v line b (l :: ls) = runLines v (line + 1) b ls := by
  rw [runLines]
  exact if_pos h

theorem runLines_unread (h : ¬ isIdle l) (hparse : parseCall line (Text.trim l) = .error fault) :
    runLines v line b (l :: ls) = .pure ⟨b, some fault⟩ := by
  rw [runLines]
  refine (if_neg h).trans ?_
  rw [hparse]

theorem runLines_failed (h : ¬ isIdle l) (hparse : parseCall line (Text.trim l) = .ok c)
    (hcall : (perform v line c b).value = .error fault) :
    runLines v line b (l :: ls) = ⟨⟨b, some fault⟩, (perform v line c b).log⟩ := by
  rw [runLines]
  refine (if_neg h).trans ?_
  rw [hparse]
  dsimp only
  rw [hcall]

theorem runLines_done (h : ¬ isIdle l) (hparse : parseCall line (Text.trim l) = .ok c)
    (hcall : (perform v line c b).value = .ok b') :
    runLines v line b (l :: ls) = ⟨(runLines v (line + 1) b' ls).value,
      (perform v line c b).log ++ (runLines v (line + 1) b' ls).log⟩ := by
  rw [runLines]
  refine (if_neg h).trans ?_
  rw [hparse]
  dsimp only
  rw [hcall]

/-- What one line of a script does. -/
def runLine (v : View) (line : Nat) (b : Buffers) (l : Text) : Logged (Except ScriptFault Buffers) :=
  if isIdle l then .pure (.ok b)
  else match parseCall line (Text.trim l) with
    | .error fault => .pure (.error fault)
    | .ok c => perform v line c b

theorem runLines_go (h : (runLine v line b l).value = .ok b') :
    runLines v line b (l :: ls) = ⟨(runLines v (line + 1) b' ls).value,
      (runLine v line b l).log ++ (runLines v (line + 1) b' ls).log⟩ := by
  unfold runLine at h ⊢
  by_cases hidle : isIdle l
  · rw [if_pos hidle] at h ⊢
    obtain rfl : b = b' := Except.ok.inj h
    exact runLines_idle hidle
  · rw [if_neg hidle] at h ⊢
    cases hparse : parseCall line (Text.trim l) with
    | error fault =>
      rw [hparse] at h
      cases h
    | ok c =>
      rw [hparse] at h
      exact runLines_done hidle hparse h

theorem runLines_stop (h : (runLine v line b l).value = .error fault) :
    runLines v line b (l :: ls) = ⟨⟨b, some fault⟩, (runLine v line b l).log⟩ := by
  unfold runLine at h ⊢
  by_cases hidle : isIdle l
  · rw [if_pos hidle] at h
    cases h
  · rw [if_neg hidle] at h ⊢
    cases hparse : parseCall line (Text.trim l) with
    | error fault' =>
      rw [hparse] at h
      obtain rfl : fault' = fault := Except.error.inj h
      exact runLines_unread hidle hparse
    | ok c =>
      rw [hparse] at h
      exact runLines_failed hidle hparse h

theorem runLine_append (v : View) (line : Nat) (b b' : Buffers) (l : Text) :
    runLine v line (b.append b') l =
      ⟨(runLine v line b' l).value.map b.append, (runLine v line b' l).log⟩ := by
  unfold runLine
  split
  · rfl
  · cases parseCall line (Text.trim l) with
    | error fault => rfl
    | ok c => exact perform_append v line c b b'

/-- The lines of a script read nothing of the buffers either. -/
theorem runLines_append (v : View) (line : Nat) (b b' : Buffers) (ls : List Text) :
    runLines v line (b.append b') ls =
      ⟨(runLines v line b' ls).value.after b, (runLines v line b' ls).log⟩ := by
  induction ls generalizing line b' with
  | nil => rfl
  | cons l ls ih =>
    have hline := runLine_append v line b b' l
    cases hx : (runLine v line b' l).value with
    | error fault =>
      rw [hx] at hline
      rw [runLines_stop hx, runLines_stop (congrArg Logged.value hline), hline]
      rfl
    | ok done =>
      -- the buffers of the line are those that the next lines start with
      rw [hx] at hline
      rw [runLines_go hx, runLines_go (congrArg Logged.value hline), hline, ih]

/-- Lines that run to their end leave their buffers to the lines after them. -/
theorem runLines_concat (h : (runLines v line b ls).value = ⟨b', none⟩) (ms : List Text) :
    runLines v line b (ls ++ ms) = ⟨(runLines v (line + ls.length) b' ms).value,
      (runLines v line b ls).log ++ (runLines v (line + ls.length) b' ms).log⟩ := by
  induction ls generalizing line b with
  | nil =>
    obtain rfl : b = b' := congrArg Outcome.buffers h
    rfl
  | cons l ls ih =>
    cases hx : (runLine v line b l).value with
    | error fault =>
      rw [runLines_stop hx] at h
      cases congrArg Outcome.fault h
    | ok done =>
      rw [runLines_go hx] at h ⊢
      rw [List.cons_append, List.length_cons, Nat.add_comm ls.length, ← Nat.add_assoc,
        runLines_go hx, ih h, List.append_assoc]

end Lines

/-- A host whose scripts append to what is there and do not look at it. -/
def Host.Appends (h : Host) : Prop :=
  ∀ (v : View) (code : Text) (b b' : Buffers),
    h.run v code (b.append b') = ⟨(h.run v code b').value.after b, (h.run v code b').log⟩

theorem appends_caller : caller.Appends := fun v code b b' =>
  runLines_append v 1 b b' (Text.lines code)

theorem appends_idle : idle.Appends := fun _ _ _ _ => rfl

end Folio.Script
