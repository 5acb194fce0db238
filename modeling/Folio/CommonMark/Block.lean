import Folio.CommonMark.Opening

namespace Folio.CommonMark

inductive Block
  | paragraph (text : Text)
  | heading (level : Nat) (text : Text)
  | rule
  /-- Code with what is said of it after its fence. -/
  | code (info text : Text)
  | html (text : Text)
  | quote (blocks : List Block)
  /-- A list with its first number if it is numbered; a tight one shows no paragraphs. -/
  | list (start : Option Nat) (tight : Bool) (items : List Block)
  | item (blocks : List Block)
deriving Repr

/-- What is open while lines are read. -/
inductive Container
  | quote
  | list (mark : Char) (start : Nat) (tight : Bool)
  | item (indent : Nat)
deriving Repr

namespace Container

def isList : Container → Bool
  | list .. => true
  | _ => false

def isItem : Container → Bool
  | item _ => true
  | _ => false

def loosen : Container → Container
  | list mark start _ => list mark start false
  | c => c

/-- The block made of a container's contents. -/
def close (blocks : List Block) : Container → Block
  | quote => .quote blocks
  | list mark start tight => .list (if mark = '.' || mark = ')' then some start else none) tight blocks
  | item _ => .item blocks

/-- Step into a container on a further line. -/
def enter? (c : Cursor) : Container → Option Cursor
  | quote =>
    let (_, inner) := c.takeSpaces 3
    if inner.rest.head? = some '>' then some (inner.next.takeSpaces 1).2 else none
  | list .. => some c
  | item indent =>
    let (n, inner) := c.takeSpaces indent
    if n = indent || inner.rest.isEmpty then some inner else none

/-- Step into containers, the outermost first, as far as the line goes on with them: how many those
are, and what they leave. -/
def enter (c : Cursor) : List Container → Nat × Cursor
  | [] => (0, c)
  | x :: xs => match x.enter? c with
    | none => (0, c)
    | some inner =>
      let (n, last) := enter inner xs
      (n + 1, last)

/-- The line inside all of the containers. -/
def inside? (containers : List Container) (line : Line) : Option Cursor :=
  let (n, c) := enter (Cursor.start line.text) containers
  if n = containers.length then some c else none

end Container

/-- An open container, with its blocks so far, the latest first. -/
structure Frame where
  container : Container
  blocks : List Block
deriving Repr

/-- The blocks read so far. A blank line is remembered until it is known whether it stands between
two items of a list, and so is an item that has nothing after its marker. -/
structure Builder where
  /-- The open containers, the innermost first. -/
  spine : List Frame
  done : List Block
  blankBefore : Bool
  emptyItem : Bool
  /-- Link targets by label, the first of a label first. -/
  definitions : List (Text × Target)
deriving Repr

namespace Builder

def empty : Builder := ⟨[], [], false, false, []⟩

def containers (b : Builder) : List Container := b.spine.reverse.map Frame.container

def innermost (b : Builder) (test : Container → Bool) : Bool :=
  b.spine.head?.any fun f => test f.container

def add (b : Builder) (block : Block) : Builder :=
  match b.spine with
  | [] => { b with done := block :: b.done }
  | f :: fs => { b with spine := { f with blocks := block :: f.blocks } :: fs }

def openContainer (b : Builder) (c : Container) : Builder :=
  { b with spine := ⟨c, []⟩ :: b.spine }

def closeInnermost (b : Builder) : Builder :=
  match b.spine with
  | [] => b
  | f :: fs =>
    add { b with spine := fs, emptyItem := b.emptyItem && !f.container.isList }
      (f.container.close f.blocks.reverse)

/-- Close containers until `n` are open. -/
def closeTo (n : Nat) (b : Builder) : Builder :=
  (List.range (b.spine.length - n)).foldl (fun b _ => b.closeInnermost) b

/-- Nothing can follow in an item that began with a blank line. -/
def finishEmptyItem (b : Builder) : Builder :=
  let closed := if b.emptyItem && b.blankBefore && b.innermost Container.isItem then
    b.closeInnermost else b
  { closed with emptyItem := false }

/-- Before a block that is no list item: an open list ends, and a blank line before the block makes
the list around it loose. -/
def finishList (b : Builder) : Builder :=
  let b := b.finishEmptyItem
  let b := if b.innermost Container.isList then b.closeInnermost else b
  if b.blankBefore then
    let spine := match b.spine with
      | f :: g :: fs => f :: { g with container := g.container.loosen } :: fs
      | fs => fs
    { b with spine, blankBefore := false }
  else b

/-- Before a list item: a list of the same mark goes on, any other begins. -/
def continueList (m : Marker) (b : Builder) : Builder :=
  let b := b.finishEmptyItem
  let fresh (b : Builder) : Builder :=
    { b.openContainer (.list m.mark m.number true) with blankBefore := false }
  match b.spine with
  | [] => fresh b
  | f :: fs => match f.container with
    | .list mark .. =>
      if mark = m.mark then
        if b.blankBefore then
          { b with spine := { f with container := f.container.loosen } :: fs, blankBefore := false }
        else b
      else fresh b.finishList
    | _ => fresh b.finishList

/-- Take note of a blank line. An item with nothing before it does not go on by its indentation. -/
def noteBlank (b : Builder) : Builder :=
  match b.spine with
  | [] => { b with blankBefore := true }
  | f :: fs => match f.container with
    | .quote => b
    | .item _ =>
      if b.emptyItem then
        { b with spine := { f with container := .item 0 } :: fs, blankBefore := true }
      else { b with blankBefore := true }
    | .list .. => { b with blankBefore := true }

/-- The first target of a label stays. -/
def define (b : Builder) (label : Text) (target : Target) : Builder :=
  if b.definitions.any (fun d => d.1 = label) then b
  else { b with definitions := b.definitions ++ [(label, target)] }

/-- All blocks, once every container is closed. -/
def finish (b : Builder) : List Block := (closeTo 0 b).done.reverse

end Builder
end Folio.CommonMark
