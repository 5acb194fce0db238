import Folio.CommonMark.Link
import Folio.CommonMark.Tag

namespace Folio.CommonMark

/-- A rule: at least three of one mark, with blanks between them. -/
def isRule (t : Text) : Bool :=
  match t with
  | c :: _ =>
    (c = '*' || c = '-' || c = '_') && t.all (fun d => d = c || d = ' ' || d = '\t')
      && 3 ≤ t.count c
  | [] => false

/-- The level of a heading that its line shows by number signs, and what follows them. -/
def heading? (t : Text) : Option (Nat × Text) :=
  let level := (t.takeWhile (· = '#')).length
  let rest := t.dropWhile (· = '#')
  if level = 0 || 6 < level then none
  else match rest with
    | [] => some (level, [])
    | c :: _ => if c = ' ' || c = '\t' then some (level, rest) else none

def dropSpacesEnd (t : Text) : Text := (t.reverse.dropWhile (· = ' ')).reverse

/-- The text of a heading, without the number signs that may close it after a space. -/
def headingText (rest : Text) : Text :=
  let body := dropSpacesEnd (rest.dropWhile isInlineBlank)
  let unclosed := (body.reverse.dropWhile (· = '#')).reverse
  if unclosed.isEmpty then []
  else if unclosed.getLast? = some ' ' then dropSpacesEnd unclosed
  else body

/-- The level of a heading whose text is underlined by the line. -/
def underline? (t : Text) : Option Nat :=
  match t with
  | c :: _ =>
    if (c = '=' || c = '-') && isBlankLine (t.dropWhile (· = c)) then
      some (if c = '=' then 1 else 2)
    else none
  | [] => none

/-- The marks that surround fenced code, how many there are, and how far the first is indented. -/
structure Fence where
  mark : Char
  count : Nat
  indent : Nat
deriving Repr

/-- The fence that a line opens, and what stands after it. -/
def fence? (indent : Nat) (t : Text) : Option (Fence × Text) :=
  match t with
  | c :: _ =>
    if c = '\x60' || c = '~' then
      let count := (t.takeWhile (· = c)).length
      let rest := t.dropWhile (· = c)
      if count < 3 || (c = '\x60' && rest.contains c) then none
      else some (⟨c, count, indent⟩, rest)
    else none
  | [] => none

/-- A line, less the indentation of the fence, that closes it. -/
def Fence.closes (f : Fence) (c : Cursor) : Bool :=
  let (spaces, c) := c.takeSpaces (4 - f.indent)
  spaces < 4 - f.indent
    && f.count ≤ (c.rest.takeWhile (· = f.mark)).length
    && (c.rest.dropWhile (· = f.mark)).all (· = ' ')

/-- What precedes a list item: its mark, the number before it, and the columns they take. -/
structure Marker where
  mark : Char
  number : Nat
  width : Nat
deriving Repr

/-- The marker at the start of a text, and what follows it. -/
def marker? (t : Text) : Option (Marker × Text) :=
  match t with
  | [] => none
  | c :: cs =>
    if c = '-' || c = '+' || c = '*' then some (⟨c, 0, 1⟩, cs)
    else
      let digits := t.takeWhile Char.isDigit
      if digits.isEmpty || 9 < digits.length then none
      else match t.dropWhile Char.isDigit with
        | d :: rest =>
          if d = '.' || d = ')' then
            some (⟨d, digits.foldl (fun n x => 10 * n + (x.toNat - '0'.toNat)) 0,
              digits.length + 1⟩, rest)
          else none
        | [] => none

theorem marker?_length {t rest : Text} {m : Marker} (h : marker? t = some (m, rest)) :
    rest.length < t.length := by
  unfold marker? at h
  grind [Text.length_dropWhile_le]

/-- The list item that a line opens after some columns of indentation: its marker, the indentation of
what belongs to it, and its content. -/
def item? (outer : Nat) (c : Cursor) : Option (Marker × Nat × Cursor) :=
  match marker? c.rest with
  | none => none
  | some (m, rest) =>
    if m.width = 1 && isRule c.rest then none
    else
      let (space, inner) := (Cursor.mk rest (c.column + m.width) 0).takeSpaces 1
      if space = 0 && !rest.isEmpty then none
      else
        let indent := outer + m.width + 1
        if isBlankLine inner.rest then some (m, indent, inner)
        else
          let (more, deeper) := inner.takeSpaces 4
          some (if more < 4 then (m, indent + more, deeper) else (m, indent, inner))

theorem item?_length {outer indent : Nat} {c content : Cursor} {m : Marker}
    (h : item? outer c = some (m, indent, content)) : content.rest.length < c.rest.length := by
  unfold item? at h
  grind [→ marker?_length, Cursor.takeSpaces_rest_length]

/-- A list item ends a paragraph that its line could continue only if it is numbered one or not at
all, and if neither its line nor the next is left empty. -/
def itemEndsParagraph (inside : Bool) (t : Text) (next : Option Line) : Bool :=
  match item? 0 (Cursor.start t) with
  | none => false
  | some (m, _, c) =>
    !inside || ((m.width = 1 || m.number = 1)
      && !(isBlankLine c.rest && next.all fun l => isBlankLine l.text))

/-- The line, less its indentation, cannot continue a paragraph. -/
def endsParagraph (inside : Bool) (t : Text) (next : Option Line) : Bool :=
  t.isEmpty || isRule t || (heading? t).isSome || (fence? 0 t).isSome || t.head? = some '>'
    || itemEndsParagraph inside t next || (interruptingBlock? t).isSome

end Folio.CommonMark
