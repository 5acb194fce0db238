import Folio.Data.Value

namespace Folio.Toml

inductive Item
  | leaf (d : Data)
  /-- An implicit table came up on the way to another one, a dotted one in a key before a value. -/
  | table (implicit dotted : Bool) (members : List (Text × Item))
  /-- The tables of an array, the last one first. -/
  | tables (items : List (List (Text × Item)))
deriving Repr

abbrev Members := List (Text × Item)

/-- Members with the item of a key replaced. -/
def replace (key : Text) (item : Item) (ms : Members) : Members :=
  ms.map fun m => if m.1 = key then (key, item) else m

/-- Change the table that a path of keys leads to from a table that is `dotted` or not. Tables that
are not there are made. A path of a dotted key may only go through tables that no header made. -/
def update (dotted : Bool) (change : (dotted : Bool) → Members → Option (α × Members)) :
    (path : List Text) → (own : Bool) → Members → Option (α × Members)
  | [], own, ms => change own ms
  | k :: ks, _, ms =>
    match ms.lookup k with
    | none => (update dotted change ks dotted []).map
        fun (a, inner) => (a, ms ++ [(k, .table true dotted inner)])
    | some (.leaf _) => none
    | some (.tables []) => none
    | some (.tables (last :: before)) => (update dotted change ks false last).map
        fun (a, inner) => (a, replace k (.tables (inner :: before)) ms)
    | some (.table implicit own inner) =>
      if dotted && !implicit then none
      else (update dotted change ks own inner).map
        fun (a, inner) => (a, replace k (.table implicit own inner) ms)

/-- Add a member that is not there yet. -/
def add? (key : Text) (item : Item) (ms : Members) : Option Members :=
  if (ms.lookup key).isSome then none else some (ms ++ [(key, item)])

/-- Add a value under a dotted key. The table that it goes into was made by such keys alone, or is
the one that the key starts from. -/
def addValue? (path : List Text) (key : Text) (value : Data) (ms : Members) : Option Members :=
  (update true (fun own inner =>
    if own = path.isEmpty then none else (add? key (.leaf value) inner).map fun m => ((), m))
    path false ms).map (·.2)

mutual

def Item.data : Item → Data
  | .leaf d => d
  | .table _ _ ms => .table (dataOfMembers ms)
  | .tables items => .list (dataOfTables items).reverse

def dataOfMembers : List (Text × Item) → List (Text × Data)
  | [] => []
  | (k, i) :: ms => (k, i.data) :: dataOfMembers ms

def dataOfTables : List (List (Text × Item)) → List Data
  | [] => []
  | ms :: rest => .table (dataOfMembers ms) :: dataOfTables rest

end

/-- A document while it is read: the finished tables, and the one that its last header opened. -/
structure Builder where
  root : Members
  path : List Text
  /-- The open table is the next one of an array. -/
  inArray : Bool
  current : Members

namespace Builder

def empty : Builder := ⟨[], [], false, []⟩

/-- The finished tables with the open one among them. -/
def close? (b : Builder) : Option Members :=
  match b.path.getLast? with
  | none => some b.current
  | some key =>
    let place (_ : Bool) (ms : Members) : Option (Unit × Members) :=
      if b.inArray then
        match ms.lookup key with
        | none => some ((), ms ++ [(key, .tables [b.current])])
        | some (.tables items) => some ((), replace key (.tables (b.current :: items)) ms)
        | some _ => none
      else (add? key (.table false false b.current) ms).map fun m => ((), m)
    (update false place b.path.dropLast false b.root).map (·.2)

/-- A header of a table. It may name one that was implied before and opens it again. -/
def openTable? (b : Builder) (path : List Text) : Option Builder :=
  match path.getLast? with
  | none => none
  | some key =>
    let take (_ : Bool) (ms : Members) : Option (Members × Members) :=
      match ms.lookup key with
      | none => some ([], ms)
      | some (.table true false inner) => some (inner, ms.filter fun m => m.1 ≠ key)
      | some _ => none
    b.close?.bind fun root =>
      (update false take path.dropLast false root).map
        fun (inner, root) => ⟨root, path, false, inner⟩

/-- A header of a further table of an array. -/
def openArray? (b : Builder) (path : List Text) : Option Builder :=
  match path.getLast? with
  | none => none
  | some key =>
    let check (_ : Bool) (ms : Members) : Option (Unit × Members) :=
      match ms.lookup key with
      | none => some ((), ms ++ [(key, .tables [])])
      | some (.tables _) => some ((), ms)
      | some _ => none
    b.close?.bind fun root =>
      (update false check path.dropLast false root).map fun (_, root) => ⟨root, path, true, []⟩

def addValue? (b : Builder) (path : List Text) (key : Text) (value : Data) : Option Builder :=
  (Toml.addValue? path key value b.current).map fun current => { b with current }

end Builder
end Folio.Toml
