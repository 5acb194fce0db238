import Folio.CommonMark.Block

namespace Folio.CommonMark

/-- What a function finds on lines from the first on, as far as it finds something. -/
def gather {α : Type} (f : Line → Option α) : List Line → List α
  | [] => []
  | l :: ls => match f l with
    | some a => a :: gather f ls
    | none => []

/-- Open the containers that begin at the cursor. None is left of a line that only opened an item. -/
def openContainers (b : Builder) (c : Cursor) : Builder × Option Cursor :=
  let inner := (c.takeSpaces 4).2
  if 4 ≤ (c.takeSpaces 4).1 then (b, some c)
  else match _hi : item? (c.takeSpaces 4).1 inner with
    | some (m, indent, content) =>
      let b := (b.continueList m).openContainer (.item indent)
      if isBlankLine content.rest then ({ b with emptyItem := true }, none)
      else openContainers b content
    | none =>
      if _hq : inner.rest.head? = some '>' then
        openContainers (b.finishList.openContainer .quote) (inner.next.takeSpaces 1).2
      else (b, some c)
termination_by c.rest.length
decreasing_by
  · exact Nat.lt_of_lt_of_le (item?_length _hi) (c.takeSpaces_rest_length 4)
  · have h1 := c.takeSpaces_rest_length 4
    have h2 := inner.next.takeSpaces_rest_length 1
    have h3 : inner.next.rest.length < inner.rest.length := by
      unfold Cursor.next
      cases hr : inner.rest <;> simp_all
    exact Nat.lt_of_le_of_lt h2 (Nat.lt_of_lt_of_le h3 h1)

/-- A line of code: the spaces owed to a tab, the rest and the ending. -/
def codeLine (c : Cursor) (line : Line) : Text := c.remainder ++ line.ending

def spaces (n : Nat) : Text := List.replicate n ' '

/-- Indented code goes on through blank lines; those at its end are not part of it. -/
def readIndentedCode (b : Builder) (c : Cursor) (line : Line) (rest : List Line) : Builder × Nat :=
  let more := gather (fun l => match Container.inside? b.containers l with
    | none => none
    | some c =>
      let (n, c) := c.takeSpaces 4
      if n = 4 || c.rest.isEmpty then some (isBlankLine c.rest, codeLine c l) else none) rest
  let blank := more.reverse.takeWhile (·.1)
  let text := codeLine c line ++ ((more.take (more.length - blank.length)).map (·.2)).flatten
  ({ b.add (.code [] text) with blankBefore := !blank.isEmpty }, more.length)

def readFencedCode (b : Builder) (f : Fence) (info : Text) (rest : List Line) : Builder × Nat :=
  let inside (l : Line) : Option Cursor :=
    (Container.inside? b.containers l).map fun c => (c.takeSpaces f.indent).2
  let body := gather (fun l => match inside l with
    | none => none
    | some c => if f.closes c then none else some (codeLine c l)) rest
  let closed := (rest[body.length]?.bind inside).any f.closes
  let info := Text.trim info
  (b.add (.code (unescape info) body.flatten), body.length + if closed then 1 else 0)

/-- The lines up to and with the first that satisfies a test. -/
def takeThrough (test : Text → Bool) : List Text → List Text
  | [] => []
  | t :: ts => if test t then [t] else t :: takeThrough test ts

def readHtml (b : Builder) (kind : HtmlBlock) (first : Text) (rest : List Line) : Builder × Nat :=
  let inside (l : Line) : Option Text := match Container.inside? b.containers l with
    | none => none
    | some c => match kind with
      | .endsWith _ => some (codeLine c l)
      | .untilBlank => if isBlankLine c.rest then none else some (codeLine c l)
  let more := gather inside rest
  let more := match kind with
    | .endsWith mark => if contains mark first then [] else takeThrough (contains mark) more
    | .untilBlank => more
  (b.add (.html (first ++ more.flatten)), more.length)

/-- The further lines of a paragraph, and the level of the heading that it is if it is underlined. -/
def paragraphLines (containers : List Container) : List Line → List Text × Option Nat
  | [] => ([], none)
  | l :: ls =>
    let (n, c) := Container.enter (Cursor.start l.text) containers
    let inside := n = containers.length
    let (spaces, inner) := c.takeSpaces 4
    let level := if inside && spaces < 4 then underline? inner.rest else none
    if level.isSome then ([], level)
    else if spaces < 4 && endsParagraph inside inner.rest ls.head? then ([], none)
    else if (inner.rest.dropWhile fun x => x = ' ' || x = '\t').isEmpty then ([], none)
    else
      let (more, level) := paragraphLines containers ls
      (c.rest :: more, level)

/-- The lines that a link definition may take. -/
def definitionLines (containers : List Container) : List Line → List Text
  | [] => []
  | l :: ls => match Container.inside? containers l with
    | none => []
    | some c =>
      let (spaces, inner) := c.takeSpaces 4
      if isBlankLine inner.rest || (spaces < 4 && ((underline? inner.rest).isSome
        || endsParagraph true inner.rest ls.head?)) then []
      else c.rest :: definitionLines containers ls

def joinLines (ls : List Text) : Text := Text.joinWith ['\n'] ls

/-- How many lines a text has. -/
def lineCount (t : Text) : Nat := if t.isEmpty then 0 else t.count '\n' + 1

/-- A paragraph, a heading underlined by its last line, or a link definition. -/
def readParagraph (b : Builder) (first : Text) (rest : List Line) : Builder × Nat :=
  let candidates := first :: definitionLines b.containers rest
  match definition? (joinLines candidates) with
  | some (label, target, after) =>
    (b.define (labelKey label) target, candidates.length - lineCount after - 1)
  | none =>
    let (more, level) := paragraphLines b.containers rest
    let text := joinLines (first :: more)
    match level with
    | some n => (b.add (.heading n text), more.length + 1)
    | none => (b.add (.paragraph text), more.length)

/-- Read the block at the cursor; how many of the further lines belong to it. -/
def readLeaf (b : Builder) (c : Cursor) (line : Line) (rest : List Line) : Builder × Nat :=
  if isBlankLine c.rest then (b.noteBlank, 0)
  else
    let b := b.finishList
    let (indent, inner) := c.takeSpaces 4
    if 4 ≤ indent then readIndentedCode b inner line rest
    else match htmlBlock? inner.rest with
      | some kind => readHtml b kind (spaces indent ++ inner.rest ++ line.ending) rest
      | none =>
        if isRule inner.rest then (b.add .rule, 0)
        else match heading? inner.rest with
          | some (level, text) => (b.add (.heading level (headingText text)), 0)
          | none => match fence? indent inner.rest with
            | some (f, info) => readFencedCode b f info rest
            | none => readParagraph b inner.rest rest

/-- Read lines, each with the containers that it goes on with, those it opens, and a block. -/
def readLines (b : Builder) : List Line → Builder
  | [] => b
  | line :: rest =>
    let (n, c) := Container.enter (Cursor.start line.text) b.containers
    match openContainers (b.closeTo n) c with
    | (b, none) => readLines b rest
    | (b, some c) =>
      let (b, taken) := readLeaf b c line rest
      readLines b (rest.drop taken)
termination_by ls => ls.length
decreasing_by
  · simp
  · simp only [List.length_drop, List.length_cons]
    omega

/-- The blocks of a document and its link targets by label. -/
structure Document where
  blocks : List Block
  definitions : List (Text × Target)
deriving Repr

def Document.read (source : Text) : Document :=
  let b := readLines Builder.empty (linesOf source)
  ⟨b.finish, b.definitions⟩

end Folio.CommonMark
