import Folio.Toml.Scalar
import Folio.Toml.Table

/-! Reading TOML documents. A document is well formed or it is not; what is wrong with one that is
not is not told. -/
namespace Folio.Toml

def skipSpaces (s : Text) : Text := s.dropWhile isSpace

def isBareKeyChar (c : Char) : Bool := c.isAlphanum || c = '_' || c = '-'

def simpleKey? : Text → Scan Text
  | '"' :: r => basicString? r
  | '\'' :: r => literalString? r
  | s =>
    let key := s.takeWhile isBareKeyChar
    if key.isEmpty then none else some (key, s.dropWhile isBareKeyChar)

/-- How deep keys and values may nest. -/
def depthLimit : Nat := 80

/-- The keys of a dotted key; `rounds` bounds their number. -/
def keys? : (rounds : Nat) → Text → Scan (List Text)
  | 0, _ => none
  | n + 1, s =>
    (simpleKey? (skipSpaces s)).bind fun (k, r) =>
      match skipSpaces r with
      | '.' :: r => (keys? n r).map fun (ks, rest) => (k :: ks, rest)
      | rest => some ([k], rest)

/-- A dotted key: the way to a table, and the key in it. -/
def key? (s : Text) : Scan (List Text × Text) :=
  (keys? (depthLimit - 1) s).bind fun (ks, rest) =>
    ks.getLast?.map fun last => ((ks.dropLast, last), rest)

/-- What follows a comment. -/
def skipComment : Text → Text
  | '#' :: r => r.dropWhile isPrintable
  | r => r

/-- The end of a line with nothing more on it than a comment. -/
def lineEnd? (s : Text) : Option Text :=
  match skipComment (skipSpaces s) with
  | [] => some []
  | r => newline? r

/-- What follows blanks, line breaks and comments between the items of an array. -/
def skipFiller : (rounds : Nat) → Text → Text
  | 0, s => s
  | n + 1, s =>
    let r := skipBreaks s
    match r with
    | '#' :: _ => skipFiller n (skipComment r)
    | _ => r

def filler (s : Text) : Text := skipFiller (s.length + 1) s

/-- The items of an array up to its end; a comma may follow the last. -/
def items? (value? : Text → Scan Data) : (rounds : Nat) → Text → Scan (List Data)
  | 0, _ => none
  | n + 1, s =>
    match filler s with
    | ']' :: r => some ([], r)
    | r => (value? r).bind fun (d, rest) =>
      match filler rest with
      | ',' :: rest => (items? value? n rest).map fun (ds, rest) => (d :: ds, rest)
      | ']' :: rest => some ([d], rest)
      | _ => none

/-- The members of an inline table up to its end, all on one line. -/
def members? (value? : Text → Scan Data) : (rounds : Nat) → Members → Text → Scan Members
  | 0, _, _ => none
  | n + 1, ms, s =>
    (key? s).bind fun ((path, key), r) =>
      match r with
      | '=' :: r => (value? (skipSpaces r)).bind fun (d, rest) =>
        (addValue? path key d ms).bind fun ms =>
          match skipSpaces rest with
          | ',' :: rest => members? value? n ms rest
          | '\x7d' :: rest => some (ms, rest)
          | _ => none
      | _ => none

def word? (word : String) (d : Data) (s : Text) : Scan Data :=
  (Text.stripPrefix? word.toList s).map fun r => (d, r)

/-- A value, with room for `depth - 1` levels of arrays and tables in it. -/
def value? : (depth : Nat) → Text → Scan Data
  | 0, _ => none
  | d + 1, s =>
    match s with
    | [] => none
    | c :: r =>
      if c = '"' || c = '\'' then (string? s).map fun (t, rest) => (.string t, rest)
      else if c = '[' then
        if d = 0 then none
        else (items? (value? d) (r.length + 1) r).map fun (ds, rest) => (.list ds, rest)
      else if c = '\x7b' then
        if d = 0 then none
        else match skipSpaces r with
          | '\x7d' :: rest => some (.table [], rest)
          | r => (members? (value? d) (r.length + 1) [] r).map
            fun (ms, rest) => (.table (dataOfMembers ms), rest)
      else if c = 't' then word? "true" (.bool true) s
      else if c = 'f' then word? "false" (.bool false) s
      else if c = 'i' || c = 'n' then float? s
      else if c = '+' || c = '-' || c.isDigit then number? s
      else none

/-- A header, after its first bracket. -/
def header? (b : Builder) (s : Text) : Option (Builder × Text) :=
  match s with
  | '[' :: r => (keys? (depthLimit - 1) r).bind fun (path, rest) =>
    match rest with
    | ']' :: ']' :: rest => (b.openArray? path).bind fun b => (lineEnd? rest).map fun r => (b, r)
    | _ => none
  | r => (keys? (depthLimit - 1) r).bind fun (path, rest) =>
    match rest with
    | ']' :: rest => (b.openTable? path).bind fun b => (lineEnd? rest).map fun r => (b, r)
    | _ => none

def keyValue? (b : Builder) (s : Text) : Option (Builder × Text) :=
  (key? s).bind fun ((path, key), r) =>
    match r with
    | '=' :: r => (value? depthLimit (skipSpaces r)).bind fun (d, rest) =>
      (b.addValue? path key d).bind fun b => (lineEnd? rest).map fun r => (b, r)
    | _ => none

/-- The lines of a document; `rounds` bounds their number. -/
def lines? : (rounds : Nat) → Builder → Text → Option Builder
  | 0, _, _ => none
  | n + 1, b, s =>
    match skipSpaces s with
    | [] => some b
    | '#' :: r => (lineEnd? ('#' :: r)).bind (lines? n b)
    | '[' :: r => (header? b r).bind fun (b, rest) => lines? n b rest
    | c :: r =>
      if c = '\n' || c = '\r' then (newline? (c :: r)).bind (lines? n b)
      else (keyValue? b (c :: r)).bind fun (b, rest) => lines? n b rest

/-- Read a document; a mark of the byte order may precede it. -/
def parse? (s : Text) : Option (List (Text × Data)) :=
  let s := match s with
    | c :: r => if c.toNat = 0xFEFF then r else s
    | [] => []
  ((lines? (s.length + 1) .empty s).bind Builder.close?).map dataOfMembers

end Folio.Toml
