import Folio.CommonMark.Link
import Folio.CommonMark.Tag

namespace Folio.CommonMark

inductive Inline
  | text (t : Text)
  | code (t : Text)
  | html (t : Text)
  | softBreak
  | hardBreak
  | emphasis (strong : Bool) (content : List Inline)
  | link (target : Target) (content : List Inline)
  | image (target : Target) (content : List Inline)
deriving Repr

/-- A run of emphasis marks: what is left of it and how long it was. -/
structure Run where
  mark : Char
  count : Nat
  length : Nat
  opens : Bool
  closes : Bool
deriving Repr

/-- Running text before its emphasis marks are paired. -/
inductive Piece
  | inline (i : Inline)
  | run (r : Run)
deriving Repr

namespace Run

def literal (r : Run) : Inline := .text (List.replicate r.count r.mark)

def both (r : Run) : Bool := r.opens && r.closes

/-- A run that can open and one that can close make a pair. If either could do both, the sum of their
lengths must not be a multiple of three unless each length is. -/
def pairs (opener closer : Run) : Bool :=
  opener.mark = closer.mark
    && ((!closer.both && !opener.both) || (closer.length + opener.length) % 3 ≠ 0
      || closer.length % 3 = 0)

/-- The marks at a place between two characters. White space, a line start and punctuation decide
whether they can open or close; an underscore does neither within a word. -/
def ofPlace (before : Option Char) (mark : Char) (count : Nat) (after : Option Char) : Run :=
  let punctuation (c : Char) : Bool := Text.isPunctuation c
  let afterBlank := before.all Text.isBlank
  let opens := match after with
    | none => false
    | some c => !Text.isBlank c
        && (afterBlank || (mark = '*' && !punctuation c) || before.any punctuation)
  let closes := !afterBlank && (match after with
    | none => true
    | some c => Text.isBlank c || (mark = '*' && !before.any punctuation) || punctuation c)
  ⟨mark, count, count, opens, closes⟩

end Run

/-- Emphasis by `n` marks on each side, strong emphasis inmost. -/
def emphasize (n : Nat) (content : List Inline) : List Inline :=
  let strong := (List.range (n / 2)).foldl (fun c _ => [.emphasis true c]) content
  if n % 2 = 1 then [.emphasis false strong] else strong

/-- An opening run with what precedes it, the latest first. -/
structure Opening where
  run : Run
  outer : List Inline

/-- The content inside an opening run that stays literal. -/
def Opening.unopened (o : Opening) (inner : List Inline) : List Inline :=
  inner ++ o.run.literal :: o.outer

/-- The innermost opening run that pairs with a closing one: it, the content since it, and the
openings around it. -/
def matching? (closer : Run) (inner : List Inline) :
    List Opening → Option (Opening × List Inline × List Opening)
  | [] => none
  | o :: os =>
    if o.run.pairs closer then some (o, inner, os)
    else matching? closer (o.unopened inner) os

/-- Pair a closing run as often as it pairs; each pair uses up marks of the closing run. -/
def closeRun (closer : Run) (inner : List Inline) (openings : List Opening) :
    Run × List Inline × List Opening :=
  if closer.count = 0 then (closer, inner, openings)
  else match matching? closer inner openings with
    | none => (closer, inner, openings)
    | some (o, content, os) =>
      let n := min closer.count o.run.count
      if 0 < n then
        let made := emphasize n content.reverse
        let closer' := { closer with count := closer.count - n }
        if n < o.run.count then
          closeRun closer' made (⟨{ o.run with count := o.run.count - n }, o.outer⟩ :: os)
        else closeRun closer' (made ++ o.outer) os
      else (closer, inner, openings)
termination_by closer.count
decreasing_by all_goals omega

/-- Pair the emphasis marks; `inner` is the content since the innermost opening, the latest first. -/
def pairRuns (inner : List Inline) (openings : List Opening) : List Piece → List Inline
  | [] => (openings.foldl (fun inner o => o.unopened inner) inner).reverse
  | .inline i :: ps => pairRuns (i :: inner) openings ps
  | .run r :: ps =>
    let (left, inner, openings) :=
      if r.closes then closeRun r inner openings else (r, inner, openings)
    if left.count = 0 then pairRuns inner openings ps
    else if r.opens then pairRuns [] (⟨left, inner⟩ :: openings) ps
    else pairRuns (left.literal :: inner) openings ps

/-- An opening bracket, the pieces before it, the latest first, and the source after it. An inactive
one makes no link, since a link holds none. -/
structure Bracket where
  isImage : Bool
  isActive : Bool
  outer : List Piece
  source : Text

def Bracket.literal (b : Bracket) : Piece :=
  .inline (.text (if b.isImage then ['!', '['] else ['[']))

/-- The place after a run of exactly `n` backticks, and the content before it. -/
def closingBackticks? (n : Nat) (s : Text) : Option (Text × Text) :=
  match s with
  | [] => none
  | c :: cs =>
    if c = '\x60' then
      let count := ((c :: cs).takeWhile (· = '\x60')).length
      let rest := cs.dropWhile (· = '\x60')
      if count = n then some ([], rest)
      else (closingBackticks? n rest).map fun (t, r) => (List.replicate count '\x60' ++ t, r)
    else (closingBackticks? n cs).map fun (t, r) => (c :: t, r)
termination_by s.length
decreasing_by
  · have : (cs.dropWhile (· = '\x60')).length ≤ cs.length :=
      (List.dropWhile_sublist _).length_le
    simp only [List.length_cons]; omega
  · simp

theorem closingBackticks?_length {n : Nat} {s t rest : Text}
    (h : closingBackticks? n s = some (t, rest)) : rest.length ≤ s.length := by
  fun_induction closingBackticks? n s generalizing t rest <;>
    grind [Text.length_dropWhile_le, Option.map_eq_some_iff]

/-- The content of a code span: line breaks are spaces, and one space at each end is not shown unless
there is nothing else. -/
def codeContent (t : Text) : Text :=
  let t := t.map fun c => if c = '\n' || c = '\r' then ' ' else c
  if t.all (· = ' ') then t
  else if t.head? = some ' ' && t.getLast? = some ' ' then (t.drop 1).dropLast
  else t

/-- An absolute address between angle brackets, after the opening one. -/
def uri? (s : Text) : Option (Text × Text) :=
  let isScheme (c : Char) : Bool := c.isAlphanum || c = '.' || c = '-' || c = '+'
  let scheme := s.takeWhile isScheme
  let rest := s.dropWhile isScheme
  let isPath (c : Char) : Bool := !(c = '>' || c = '<' || c.toNat ≤ 32)
  if !(s.head?.any Char.isAlpha) || scheme.length < 2 || 32 < scheme.length then none
  else match rest with
    | ':' :: path => match path.dropWhile isPath with
      | '>' :: r => some (scheme ++ ':' :: path.takeWhile isPath, r)
      | _ => none
    | _ => none

theorem uri?_length {s t rest : Text} (h : uri? s = some (t, rest)) : rest.length ≤ s.length := by
  unfold uri? at h
  grind [Text.length_dropWhile_le]

/-- A part of the domain of a mail address. -/
def isDomainLabel (t : Text) : Bool :=
  !t.isEmpty && t.length ≤ 63 && t.all (fun c => c.isAlphanum || c = '-')
    && t.head? ≠ some '-' && t.getLast? ≠ some '-'

/-- A character before the at sign of a mail address. -/
def isMailboxChar (c : Char) : Bool :=
  c.isAlphanum || ".!#$%&'*+/=?^_\x60\x7b|\x7d~-".toList.contains c

/-- A mail address between angle brackets, after the opening one. -/
def mail? (s : Text) : Option (Text × Text) :=
  let person := s.takeWhile isMailboxChar
  match s.dropWhile isMailboxChar with
  | '@' :: rest =>
    let isDomain (c : Char) : Bool := c.isAlphanum || c = '-' || c = '.'
    let domain := rest.takeWhile isDomain
    match rest.dropWhile isDomain with
    | '>' :: r =>
      if !person.isEmpty && (Text.splitOn '.' domain).all isDomainLabel then
        some (person ++ '@' :: domain, r)
      else none
    | _ => none
  | _ => none

theorem mail?_length {s t rest : Text} (h : mail? s = some (t, rest)) :
    rest.length ≤ s.length := by
  unfold mail? at h
  grind [Text.length_dropWhile_le]

/-- The link that an address between angle brackets makes. -/
def autolink? (s : Text) : Option (Inline × Text) :=
  match uri? s with
  | some (t, r) => some (.link ⟨t, []⟩ [.text t], r)
  | none => (mail? s).map fun (t, r) => (.link ⟨"mailto:".toList ++ t, []⟩ [.text t], r)

theorem autolink?_length {s rest : Text} {i : Inline} (h : autolink? s = some (i, rest)) :
    rest.length ≤ s.length := by
  unfold autolink? at h
  grind [→ uri?_length, → mail?_length, Option.map_eq_some_iff]

/-- The characters that stand for themselves wherever they are. -/
def isPlain (c : Char) : Bool :=
  !(c = '\\' || c = '\x60' || c = '*' || c = '_' || c = '[' || c = ']' || c = '!' || c = '<'
    || c = '&' || c = '\n')

/-- The text before a line break: the blanks at its end are dropped, and two of them make the break
hard. -/
def breakLine (pieces : List Piece) : Bool × List Piece :=
  match pieces with
  | .inline (.text t) :: ps =>
    let kept := (t.reverse.dropWhile isInlineBlank).reverse
    (kept.length + 2 ≤ t.length, .inline (.text kept) :: ps)
  | ps => (false, ps)

/-- The target of the link or image whose text ends before `rest`, and what follows it. -/
def targetAfter? (definitions : List (Text × Target)) (b : Bracket) (rest : Text) :
    Option (Target × Text) :=
  let defined (label : Text) : Option Target :=
    (definitions.find? fun d => d.1 = labelKey label).map (·.2)
  let own : Option Target :=
    let inside := b.source.take (b.source.length - rest.length - 1)
    match label? ('[' :: inside ++ [']']) with
    | some (label, []) => defined label
    | _ => none
  match inlineTarget? rest with
  | some found => some found
  | none => match rest with
    | '[' :: ']' :: after => own.map fun t => (t, after)
    | _ => match label? rest with
      | some (label, after) => (defined label).map fun t => (t, after)
      | none => own.map fun t => (t, rest)

theorem targetAfter?_length {definitions : List (Text × Target)} {b : Bracket} {s rest : Text}
    {t : Target} (h : targetAfter? definitions b s = some (t, rest)) :
    rest.length ≤ s.length := by
  unfold targetAfter? at h
  grind [→ inlineTarget?_length, → label?_length, Option.map_eq_some_iff]

/-- The pieces so far as content. -/
def contentOf (pieces : List Piece) : List Inline := pairRuns [] [] pieces.reverse

/-- A bracket that makes no link is text. -/
def unlinked (pieces : List Piece) (b : Bracket) : List Piece := pieces ++ b.literal :: b.outer

/-- Scan running text. `before` is the last character passed, `pieces` what was read since the
innermost open bracket, the latest first. -/
def scan (definitions : List (Text × Target)) (before : Option Char) (pieces : List Piece)
    (brackets : List Bracket) (s : Text) : List Inline :=
  let literal (c : Char) : Piece := .inline (.text [c])
  match s with
  | [] =>
    let pieces := (breakLine pieces).2
    contentOf (brackets.foldl unlinked pieces)
  | '\n' :: cs =>
    let (hard, pieces) := breakLine pieces
    let rest := cs.dropWhile fun c => c = ' ' || c = '\t'
    have : rest.length ≤ cs.length := (List.dropWhile_sublist _).length_le
    scan definitions none (.inline (if hard then .hardBreak else .softBreak) :: pieces) brackets rest
  | '\\' :: '\n' :: cs =>
    let rest := cs.dropWhile fun c => c = ' ' || c = '\t'
    have : rest.length ≤ cs.length := (List.dropWhile_sublist _).length_le
    scan definitions none (.inline .hardBreak :: pieces) brackets rest
  | '\\' :: '\x60' :: cs =>
    let run := cs.takeWhile (· = '\x60')
    let rest := cs.dropWhile (· = '\x60')
    have : rest.length ≤ cs.length := (List.dropWhile_sublist _).length_le
    match hc : (if run.isEmpty then none else closingBackticks? run.length rest) with
    | some (t, r) =>
      have : r.length ≤ rest.length :=
        closingBackticks?_length (Option.ite_none_left_eq_some.1 hc).2
      scan definitions (some '\x60')
        (.inline (.code (codeContent t)) :: literal '\x60' :: pieces) brackets r
    | none => scan definitions (some '\x60') (.inline (.text ('\x60' :: run)) :: pieces) brackets rest
  | '\\' :: c :: cs =>
    if Text.isAsciiPunctuation c then scan definitions (some c) (literal c :: pieces) brackets cs
    else scan definitions (some '\\') (literal '\\' :: pieces) brackets (c :: cs)
  | '!' :: '[' :: cs => scan definitions (some '[') [] (⟨true, true, pieces, cs⟩ :: brackets) cs
  | c :: cs =>
    if c = '\x60' then
      let run := cs.takeWhile (· = '\x60')
      let rest := cs.dropWhile (· = '\x60')
      have : rest.length ≤ cs.length := (List.dropWhile_sublist _).length_le
      match hc : closingBackticks? (run.length + 1) rest with
      | some (t, r) =>
        have := closingBackticks?_length hc
        scan definitions (some '\x60') (.inline (.code (codeContent t)) :: pieces) brackets r
      | none =>
        scan definitions (some '\x60') (.inline (.text ('\x60' :: run)) :: pieces) brackets rest
    else if c = '*' || c = '_' then
      let more := cs.takeWhile (· = c)
      let rest := cs.dropWhile (· = c)
      have : rest.length ≤ cs.length := (List.dropWhile_sublist _).length_le
      scan definitions (some c) (.run (Run.ofPlace before c (more.length + 1) rest.head?) :: pieces)
        brackets rest
    else if c = '[' then scan definitions (some c) [] (⟨false, true, pieces, cs⟩ :: brackets) cs
    else if c = ']' then
      match brackets with
      | [] => scan definitions (some c) (literal c :: pieces) [] cs
      | b :: bs =>
        match ht : (if b.isActive then targetAfter? definitions b cs else none) with
        | some (target, rest) =>
          have : rest.length ≤ cs.length :=
            targetAfter?_length (Option.ite_none_right_eq_some.1 ht).2
          let content := contentOf pieces
          let made := if b.isImage then Inline.image target content else .link target content
          let bs := if b.isImage then bs
            else bs.map fun x => { x with isActive := x.isActive && x.isImage }
          scan definitions (some (if rest.length < cs.length then ')' else ']'))
            (.inline made :: b.outer) bs rest
        | none => scan definitions (some c) (literal c :: unlinked pieces b) bs cs
    else if c = '<' then
      match ha : autolink? cs with
      | some (made, rest) =>
        have := autolink?_length ha
        scan definitions (some '>') (.inline made :: pieces) brackets rest
      | none =>
        match hh : inlineHtml? cs with
        | some rest =>
          have := inlineHtml?_length hh
          scan definitions (some '>')
            (.inline (.html (c :: cs.take (cs.length - rest.length))) :: pieces) brackets rest
        | none => scan definitions (some c) (literal c :: pieces) brackets cs
    else if c = '&' then
      match hr : reference? cs with
      | some (t, rest) =>
        have := reference?_length hr
        scan definitions (some ';') (.inline (.text t) :: pieces) brackets rest
      | none => scan definitions (some c) (literal c :: pieces) brackets cs
    else
      let more := cs.takeWhile isPlain
      let rest := cs.dropWhile isPlain
      have : rest.length ≤ cs.length := (List.dropWhile_sublist _).length_le
      scan definitions (some ((c :: more).getLast?.getD c)) (.inline (.text (c :: more)) :: pieces)
        brackets rest
termination_by s.length
decreasing_by all_goals simp_all +zetaDelta only [List.length_cons]; omega

/-- The running text of a block. -/
def inlines (definitions : List (Text × Target)) (s : Text) : List Inline :=
  scan definitions none [] [] s

end Folio.CommonMark
