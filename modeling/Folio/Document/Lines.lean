import Folio.Text.Basic

namespace Folio.Lines

/-- What follows a keyword and a space, trimmed. -/
def argument? (keyword line : Text) : Option Text :=
  ((Text.stripPrefix? keyword line).bind (Text.stripPrefix? [' '])).map Text.trim

/-- The line without one level of indentation, a tab or four spaces. -/
def stripIndent? : Text → Option Text
  | '\t' :: rest => some rest
  | ' ' :: ' ' :: ' ' :: ' ' :: rest => some rest
  | _ => none

/-- The block of indented lines that the lines start with, and how many lines it spans. Blank lines
belong to it as far as an indented line follows; `blanks` of them come before these lines. -/
def blockAfter (blanks : Nat) : List Text → List Text × Nat
  | [] => ([], 0)
  | l :: ls =>
    if (Text.trim l).isEmpty then blockAfter (blanks + 1) ls
    else match stripIndent? l with
      | none => ([], 0)
      | some rest =>
        let (body, spanned) := blockAfter 0 ls
        (List.replicate blanks [] ++ Text.trimEnd rest :: body, blanks + 1 + spanned)

def block (lines : List Text) : List Text × Nat := blockAfter 0 lines

def joinWithBreaks (lines : List Text) : Text := Text.joinWith ['\n'] lines

end Folio.Lines
