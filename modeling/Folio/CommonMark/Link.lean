import Folio.CommonMark.Cursor
import Folio.Html.Reference
import Folio.Text.CaseFold
import Folio.Text.Punctuation

/-! The parts of links and their definitions: character references, escapes, labels,
destinations and titles. Scanners return what they read and the rest of the input. -/
namespace Folio.CommonMark

/-- The character with a code; zero gives the replacement character. -/
def charOfCode? (n : Nat) : Option Char :=
  if n = 0 then some (Char.ofNat 0xFFFD)
  else if 0x10FFFF < n || (0xD800 ≤ n && n ≤ 0xDFFF) then none
  else some (Char.ofNat n)

def isHexDigit (c : Char) : Bool := (Text.isAsciiAlphanumeric c) && (c.isDigit || c.toLower ≤ 'f')

def hexDigitValue (c : Char) : Nat :=
  if c.isDigit then c.toNat - '0'.toNat else c.toLower.toNat - 'a'.toNat + 10

/-- A number of at most `limit` digits closed by a semicolon. -/
def numericReference? (base limit : Nat) (isDigit : Char → Bool) (s : Text) : Option (Text × Text) :=
  let digits := s.takeWhile isDigit
  match s.dropWhile isDigit with
  | ';' :: rest =>
    if digits.isEmpty || limit < digits.length then none
    else (charOfCode? (digits.foldl (fun n d => base * n + hexDigitValue d) 0)).map
      fun c => ([c], rest)
  | _ => none

/-- A character reference, after its ampersand: by name or by a number of at most seven decimal or
six hexadecimal digits. -/
def reference? : Text → Option (Text × Text)
  | '#' :: 'x' :: s => numericReference? 16 6 isHexDigit s
  | '#' :: 'X' :: s => numericReference? 16 6 isHexDigit s
  | '#' :: s => numericReference? 10 7 Char.isDigit s
  | s =>
    match s.dropWhile Char.isAlphanum with
    | ';' :: rest => (Html.reference? (s.takeWhile Char.isAlphanum)).map fun t => (t, rest)
    | _ => none

theorem numericReference?_length {base limit : Nat} {isDigit : Char → Bool} {s t rest : Text}
    (h : numericReference? base limit isDigit s = some (t, rest)) : rest.length < s.length := by
  have hle : (s.dropWhile isDigit).length ≤ s.length := (List.dropWhile_sublist isDigit).length_le
  unfold numericReference? at h
  grind [Option.map_eq_some_iff]

theorem reference?_length {s t rest : Text} (h : reference? s = some (t, rest)) :
    rest.length < s.length := by
  unfold reference? at h
  split at h
  iterate 3
    · have := numericReference?_length h
      simp only [List.length_cons]
      omega
  · have hle : (s.dropWhile Char.isAlphanum).length ≤ s.length :=
      (List.dropWhile_sublist Char.isAlphanum).length_le
    grind [Option.map_eq_some_iff]

/-- Text with its escapes and character references replaced. -/
def unescape (s : Text) : Text :=
  match s with
  | [] => []
  | '\\' :: c :: cs => if Text.isAsciiPunctuation c then c :: unescape cs else '\\' :: unescape (c :: cs)
  | '&' :: cs => match hr : reference? cs with
    | some (t, rest) =>
      have := reference?_length hr
      t ++ unescape rest
    | none => '&' :: unescape cs
  | c :: cs => if c = '\r' then unescape cs else c :: unescape cs
termination_by s.length
decreasing_by
  all_goals
    simp only [List.length_cons]
    omega

/-- The label up to its closing bracket, after the opening one, with inner white space collapsed. It
holds no unescaped bracket, no blank line, and something other than white space. -/
def labelBody? (budget : Nat) (blank : Bool) (s : Text) : Option (Text × Text) :=
  match budget, s with
  | 0, _ => none
  | _, [] => none
  | budget + 1, c :: cs =>
    if c = '[' then none
    else if c = ']' then if blank then none else some ([], cs)
    else if c = '\\' then match cs with
      | d :: ds => (labelBody? (budget - 1) false ds).map fun (t, rest) => (c :: d :: t, rest)
      | [] => none
    else if isSpacing c then
      let run := (c :: cs).takeWhile isSpacing
      let rest := cs.dropWhile isSpacing
      if 1 < run.count '\n' then none
      else (labelBody? budget blank rest).map fun (t, rest) => (' ' :: t, rest)
    else (labelBody? budget false cs).map fun (t, rest) => (c :: t, rest)
termination_by s.length
decreasing_by
  · simp only [List.length_cons]; omega
  · have : (cs.dropWhile isSpacing).length ≤ cs.length :=
      (List.dropWhile_sublist isSpacing).length_le
    simp only [List.length_cons]; omega
  · simp

theorem labelBody?_length {budget : Nat} {blank : Bool} {s t rest : Text}
    (h : labelBody? budget blank s = some (t, rest)) : rest.length ≤ s.length := by
  fun_induction labelBody? budget blank s generalizing t rest <;>
    grind [Text.length_dropWhile_le, Option.map_eq_some_iff]

/-- A label in brackets. -/
def label? : Text → Option (Text × Text)
  | '[' :: s => labelBody? 1000 true s
  | _ => none

theorem label?_length {s t rest : Text} (h : label? s = some (t, rest)) :
    rest.length ≤ s.length := by
  unfold label? at h
  grind [→ labelBody?_length]

/-- Labels match when their folded forms are equal. -/
def labelKey (label : Text) : Text := Text.caseFold label

/-- A destination between angle brackets, after the opening one. -/
def pointedDestination? : Text → Option (Text × Text)
  | [] => none
  | '>' :: rest => some ([], rest)
  | '\\' :: c :: cs =>
    if Text.isAsciiPunctuation c then
      (pointedDestination? cs).map fun (t, rest) => ('\\' :: c :: t, rest)
    else (pointedDestination? (c :: cs)).map fun (t, rest) => ('\\' :: t, rest)
  | c :: cs =>
    if c = '\n' || c = '\r' || c = '<' then none
    else (pointedDestination? cs).map fun (t, rest) => (c :: t, rest)

theorem pointedDestination?_length {s t rest : Text}
    (h : pointedDestination? s = some (t, rest)) : rest.length ≤ s.length := by
  fun_induction pointedDestination? s generalizing t rest <;> grind [Option.map_eq_some_iff]

/-- The greatest depth of parentheses in a destination without angle brackets. -/
def maxParentheses : Nat := 32

/-- A destination without angle brackets: up to a blank or control character, or to a parenthesis
that closes none of its own. -/
def bareDestination? (nest : Nat) : Text → Option (Text × Text)
  | [] => if nest = 0 then some ([], []) else none
  | '\\' :: c :: cs =>
    if Text.isAsciiPunctuation c then
      (bareDestination? nest cs).map fun (t, rest) => ('\\' :: c :: t, rest)
    else (bareDestination? nest (c :: cs)).map fun (t, rest) => ('\\' :: t, rest)
  | c :: cs =>
    if c.toNat ≤ 32 then if nest = 0 then some ([], c :: cs) else none
    else if c = '(' then
      if maxParentheses < nest then none
      else (bareDestination? (nest + 1) cs).map fun (t, rest) => (c :: t, rest)
    else if c = ')' then
      if nest = 0 then some ([], c :: cs)
      else (bareDestination? (nest - 1) cs).map fun (t, rest) => (c :: t, rest)
    else (bareDestination? nest cs).map fun (t, rest) => (c :: t, rest)

theorem bareDestination?_length {nest : Nat} {s t rest : Text}
    (h : bareDestination? nest s = some (t, rest)) : rest.length ≤ s.length := by
  fun_induction bareDestination? nest s generalizing t rest <;> grind [Option.map_eq_some_iff]

/-- A link destination as written. -/
def destination? : Text → Option (Text × Text)
  | '<' :: s => pointedDestination? s
  | s => bareDestination? 0 s

theorem destination?_length {s t rest : Text} (h : destination? s = some (t, rest)) :
    rest.length ≤ s.length := by
  unfold destination? at h
  grind [→ pointedDestination?_length, → bareDestination?_length]

/-- A title up to its closing mark, without the blanks at the starts of its lines; it holds no blank
line, and no unescaped opening mark. -/
def titleBody? (opening closing : Char) (s : Text) : Option (Text × Text) :=
  match s with
  | [] => none
  | '\\' :: c :: cs =>
    if Text.isAsciiPunctuation c then
      (titleBody? opening closing cs).map fun (t, rest) => ('\\' :: c :: t, rest)
    else (titleBody? opening closing (c :: cs)).map fun (t, rest) => ('\\' :: t, rest)
  | c :: cs =>
    if c = closing then some ([], cs)
    else if c = opening then none
    else if c = '\n' then
      (titleBody? opening closing (cs.dropWhile isInlineBlank)).map fun (t, rest) => (c :: t, rest)
    else (titleBody? opening closing cs).map fun (t, rest) => (c :: t, rest)
termination_by s.length
decreasing_by
  · simp only [List.length_cons]; omega
  · simp
  · have : (cs.dropWhile isInlineBlank).length ≤ cs.length :=
      (List.dropWhile_sublist isInlineBlank).length_le
    simp only [List.length_cons]; omega
  · simp

theorem titleBody?_length {opening closing : Char} {s t rest : Text}
    (h : titleBody? opening closing s = some (t, rest)) : rest.length ≤ s.length := by
  fun_induction titleBody? opening closing s generalizing t rest <;>
    grind [Text.length_dropWhile_le, Option.map_eq_some_iff]

/-- A title in quotation marks or parentheses, as written. -/
def title? : Text → Option (Text × Text)
  | '"' :: s => titleBody? '"' '"' s
  | '\'' :: s => titleBody? '\'' '\'' s
  | '(' :: s => titleBody? '(' ')' s
  | _ => none

theorem title?_length {s t rest : Text} (h : title? s = some (t, rest)) :
    rest.length ≤ s.length := by
  unfold title? at h
  grind [→ titleBody?_length]

/-- Where a link leads, and its title: none if it is empty. -/
structure Target where
  destination : Text
  title : Text
deriving Repr, Inhabited

/-- White space with at most one line break. -/
def skipSeparator (s : Text) : Text :=
  match s.dropWhile isInlineBlank with
  | '\n' :: r => r.dropWhile isInlineBlank
  | r => r

theorem skipSeparator_length (s : Text) : (skipSeparator s).length ≤ s.length := by
  unfold skipSeparator
  grind [Text.length_dropWhile_le]

/-- The target of an inline link, from its opening parenthesis on. -/
def inlineTarget? : Text → Option (Target × Text)
  | '(' :: s =>
    match destination? (skipSeparator s) with
    | none => none
    | some (destination, rest) =>
      let rest := skipSeparator rest
      let (title, rest) := match title? rest with
        | some (t, r) => (unescape t, skipSeparator r)
        | none => ([], rest)
      match rest with
      | ')' :: r => some (⟨unescape destination, title⟩, r)
      | _ => none
  | _ => none

theorem inlineTarget?_length {s rest : Text} {t : Target} (h : inlineTarget? s = some (t, rest)) :
    rest.length ≤ s.length := by
  unfold inlineTarget? at h
  grind [→ destination?_length, → title?_length, skipSeparator_length]

/-- A link definition at the start of a paragraph: its label, its target and what follows the end of
its last line. A title that is not closed by the end of its line is none if the definition is
complete without it. -/
def definition? (s : Text) : Option (Text × Target × Text) :=
  match label? s with
  | some (label, ':' :: rest) =>
    let start := skipSeparator rest
    match destination? start with
    | none => none
    | some (destination, rest) =>
      if rest.length = start.length then none
      else
        let destination := unescape destination
        let blanks := rest.takeWhile isInlineBlank
        let afterBlanks := rest.dropWhile isInlineBlank
        let untitled : Option (Text × Target × Text) :=
          match afterBlanks with
          | [] => some (label, ⟨destination, []⟩, [])
          | '\n' :: r => some (label, ⟨destination, []⟩, r)
          | _ => none
        let sameLine := untitled.isNone
        if sameLine && blanks.isEmpty then none
        else match title? (skipSeparator rest) with
          | none => untitled
          | some (title, r) => match r.dropWhile isInlineBlank with
            | [] => some (label, ⟨destination, unescape title⟩, [])
            | '\n' :: r => some (label, ⟨destination, unescape title⟩, r)
            | _ => untitled
  | _ => none

end Folio.CommonMark
