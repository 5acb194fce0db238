import Folio.Text.Basic

/-! A place within a line, with tabs counted as spaces up to the next column that is a multiple of
four. A tab can be consumed in part; the columns left of it are owed as spaces. -/
namespace Folio.CommonMark

/-- A line of the input, and the ending that it keeps inside of code: none at the end of input. -/
structure Line where
  text : Text
  ending : Text
deriving Repr, Inhabited

/-- The lines of a document. A line ends with a line feed, a carriage return, or both in turn. -/
def linesOf : Text → List Line
  | [] => []
  | '\r' :: '\n' :: cs => ⟨[], ['\n']⟩ :: linesOf cs
  | c :: cs =>
    if c = '\n' || c = '\r' then ⟨[], [c]⟩ :: linesOf cs
    else match linesOf cs with
      | l :: ls =>
        ⟨c :: l.text, l.ending⟩ :: ls
      | [] => [⟨[c], []⟩]

/-- The rest of a line, the column at which it starts, and the spaces owed before it. -/
structure Cursor where
  rest : Text
  column : Nat
  owed : Nat
deriving Repr, Inhabited

namespace Cursor

def start (t : Text) : Cursor := ⟨t, 0, 0⟩

/-- Consume at most `n` columns of spaces and tabs; how many there were. -/
def takeSpaces : Nat → Cursor → Nat × Cursor
  | 0, c => (0, c)
  | n + 1, c =>
    if 0 < c.owed then
      let (k, c') := takeSpaces n { c with owed := c.owed - 1 }
      (k + 1, c')
    else match c.rest with
      | ' ' :: r =>
        let (k, c') := takeSpaces n ⟨r, c.column + 1, 0⟩
        (k + 1, c')
      | '\t' :: r =>
        let width := 4 - c.column % 4
        let (k, c') := takeSpaces n ⟨r, c.column + width, width - 1⟩
        (k + 1, c')
      | _ => (0, c)

theorem takeSpaces_rest_length (n : Nat) (c : Cursor) :
    (c.takeSpaces n).2.rest.length ≤ c.rest.length := by
  fun_induction takeSpaces n c <;> grind

/-- Step over one character that is not a tab. -/
def next (c : Cursor) : Cursor := ⟨c.rest.drop 1, c.column + 1, 0⟩

/-- The rest of the line with the spaces that are owed. -/
def remainder (c : Cursor) : Text := List.replicate c.owed ' ' ++ c.rest

end Cursor

/-- The blanks within a line: space, tab, line tabulation and form feed. -/
def isInlineBlank (c : Char) : Bool := c = ' ' || c = '\t' || c.toNat = 11 || c.toNat = 12

/-- A line, or the rest of one, with blanks only. -/
def isBlankLine (t : Text) : Bool := t.all isInlineBlank

/-- White space including line endings. -/
def isSpacing (c : Char) : Bool := isInlineBlank c || c = '\n' || c = '\r'

end Folio.CommonMark
