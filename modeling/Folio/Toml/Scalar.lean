import Folio.Data.Value

namespace Folio.Toml

abbrev Scan (α : Type) := Option (α × Text)

def isSpace (c : Char) : Bool := c = ' ' || c = '\t'

/-- A character of a comment or a literal string. -/
def isPrintable (c : Char) : Bool :=
  c = '\t' || (0x20 ≤ c.toNat && c.toNat ≤ 0x7E) || 0x80 ≤ c.toNat

def newline? : Text → Option Text
  | '\n' :: r => some r
  | '\r' :: '\n' :: r => some r
  | _ => none

def simpleEscape? (c : Char) : Option Char :=
  if c = 'b' then some (Char.ofNat 8)
  else if c = 't' then some '\t'
  else if c = 'n' then some '\n'
  else if c = 'f' then some (Char.ofNat 12)
  else if c = 'r' then some '\r'
  else if c = '"' then some '"'
  else if c = '\\' then some '\\'
  else none

def isHexDigit (c : Char) : Bool := c.isDigit || ('a' ≤ c.toLower && c.toLower ≤ 'f')

def hexValue (c : Char) : Nat :=
  if c.isDigit then c.toNat - '0'.toNat else c.toLower.toNat - 'a'.toNat + 10

def ofDigits (base : Nat) (digits : Text) : Nat := digits.foldl (fun n d => base * n + hexValue d) 0

/-- The character that exactly `count` hexadecimal digits stand for. -/
def codePoint? (count : Nat) (s : Text) : Option Char :=
  let digits := s.take count
  let n := ofDigits 16 digits
  if digits.length = count && digits.all isHexDigit && n ≤ 0x10FFFF
      && !(0xD800 ≤ n && n ≤ 0xDFFF) then some (Char.ofNat n)
  else none

/-- The character of an escape, after its backslash, and how much of the input it takes. -/
def escape? : Text → Option (Char × Nat)
  | [] => none
  | c :: r =>
    if c = 'u' then (codePoint? 4 r).map fun x => (x, 5)
    else if c = 'U' then (codePoint? 8 r).map fun x => (x, 9)
    else (simpleEscape? c).map fun x => (x, 1)

def prepend (t : Text) (r : Scan Text) : Scan Text := r.map fun (u, rest) => (t ++ u, rest)

/-- A basic string after its opening mark. -/
def basicString? (s : Text) : Scan Text :=
  match s with
  | [] => none
  | '"' :: r => some ([], r)
  | '\\' :: r => match escape? r with
    | some (c, n) => prepend [c] (basicString? (r.drop n))
    | none => none
  | c :: r => if isPrintable c then prepend [c] (basicString? r) else none
termination_by s.length
decreasing_by all_goals simp; try omega

/-- A literal string after its opening mark. -/
def literalString? : Text → Scan Text
  | [] => none
  | c :: r =>
    if c = '\'' then some ([], r)
    else if isPrintable c then prepend [c] (literalString? r) else none

/-- What follows white space and line breaks. -/
def skipBreaks : Text → Text
  | '\r' :: '\n' :: r => skipBreaks r
  | c :: r => if isSpace c || c = '\n' then skipBreaks r else c :: r
  | [] => []

theorem skipBreaks_length (s : Text) : (skipBreaks s).length ≤ s.length := by
  fun_induction skipBreaks s <;> simp_all <;> omega

theorem newline?_length {s r : Text} (h : newline? s = some r) : r.length < s.length := by
  unfold newline? at h
  split at h <;> cases h <;> simp only [List.length_cons] <;> omega

theorem skipBreaks_newline?_length {s r : Text} (h : newline? (s.dropWhile isSpace) = some r) :
    (skipBreaks r).length ≤ s.length := by
  have hskip := skipBreaks_length r
  have hline := newline?_length h
  have hspace : (s.dropWhile isSpace).length ≤ s.length :=
    (List.dropWhile_sublist isSpace).length_le
  omega

/-- The end of a string between triple marks: up to two marks before the last three are content. -/
def closeTriple? (count : Nat) (mark : Char) (rest : Text) : Scan Text :=
  if count ≤ 5 then some (List.replicate (count - 3) mark, rest) else none

/-- A string between triple marks, after the opening ones; `escapes` if a backslash is one. -/
def tripleString? (mark : Char) (escapes : Bool) (s : Text) : Scan Text :=
  match s with
  | [] => none
  | '\r' :: '\n' :: r => prepend ['\n'] (tripleString? mark escapes r)
  | c :: r =>
    if c = mark then
      let count := (r.takeWhile (· = mark)).length + 1
      let rest := r.dropWhile (· = mark)
      have : rest.length ≤ r.length := (List.dropWhile_sublist _).length_le
      if 3 ≤ count then closeTriple? count mark rest
      else prepend (List.replicate count mark) (tripleString? mark escapes rest)
    else if escapes && c = '\\' then
      match hn : newline? (r.dropWhile isSpace) with
      | some rest =>
        have := skipBreaks_newline?_length hn
        tripleString? mark escapes (skipBreaks rest)
      | none => match escape? r with
        | some (x, n) => prepend [x] (tripleString? mark escapes (r.drop n))
        | none => none
    else if c = '\n' || isPrintable c then prepend [c] (tripleString? mark escapes r)
    else none
termination_by s.length
decreasing_by all_goals simp +zetaDelta only [List.length_cons, List.length_drop] at *; omega

/-- A string between triple marks begins after a line break that follows them. -/
def tripleBody? (mark : Char) (escapes : Bool) (s : Text) : Scan Text :=
  tripleString? mark escapes ((newline? s).getD s)

def string? : Text → Scan Text
  | '"' :: '"' :: '"' :: r => tripleBody? '"' true r
  | '\'' :: '\'' :: '\'' :: r => tripleBody? '\'' false r
  | '"' :: r => basicString? r
  | '\'' :: r => literalString? r
  | _ => none

/-- Digits, with single underscores between them. -/
def digits? (isDigit : Char → Bool) : Text → Scan Text
  | [] => none
  | c :: r =>
    if isDigit c then
      match r with
      | '_' :: r' => prepend [c] (digits? isDigit r')
      | d :: r' => if isDigit d then prepend [c] (digits? isDigit (d :: r')) else some ([c], d :: r')
      | [] => some ([c], [])
    else none

/-- A sign, true for minus. -/
def sign : Text → Bool × Text
  | '+' :: r => (false, r)
  | '-' :: r => (true, r)
  | r => (false, r)

/-- Decimal digits that start with a zero only if there is no other. -/
def decimal? : Text → Scan Text
  | '0' :: r => some (['0'], r)
  | r => digits? Char.isDigit r

/-- The integers of 64 bits. -/
def bounded? (n : Int) : Option Int :=
  if Int64.minValue.toInt ≤ n && n ≤ Int64.maxValue.toInt then some n else none

def integer? (s : Text) : Scan Data :=
  let based (base : Nat) (isDigit : Char → Bool) (r : Text) : Scan Data :=
    (digits? isDigit r).bind fun (t, rest) =>
      (bounded? (ofDigits base t)).map fun n => (.integer n, rest)
  match s with
  | '0' :: 'x' :: r => based 16 isHexDigit r
  | '0' :: 'o' :: r => based 8 (fun c => '0' ≤ c && c ≤ '7') r
  | '0' :: 'b' :: r => based 2 (fun c => c = '0' || c = '1') r
  | _ =>
    let (negative, r) := sign s
    (decimal? r).bind fun (t, rest) =>
      let n : Int := ofDigits 10 t
      (bounded? (if negative then -n else n)).map fun n => (.integer n, rest)

/-- A power of ten. -/
def exponent? : Text → Scan Int
  | c :: r =>
    if c = 'e' || c = 'E' then
      let (negative, r) := sign r
      (digits? Char.isDigit r).map fun (t, rest) =>
        let n : Int := ofDigits 10 t
        (if negative then -n else n, rest)
    else none
  | [] => none

/-- A number as messages show it. One beyond the greatest is refused unless it is negative. -/
def shownFloat? (negative : Bool) (digits : Text) (exponent : Int) : Option Text :=
  match Binary64.ofDecimal? negative (ofDigits 10 digits) exponent with
  | some x => some (Decimal.plain x)
  | none => if negative then some "-inf".toList else none

def float? (s : Text) : Scan Data :=
  let (negative, r) := sign s
  match r with
  | 'i' :: 'n' :: 'f' :: rest => some (.float (if negative then "-inf".toList else "inf".toList), rest)
  | 'n' :: 'a' :: 'n' :: rest => some (.float "NaN".toList, rest)
  | _ => match decimal? r with
    | none => none
    | some (whole, rest) => match rest with
      | '.' :: r => match digits? Char.isDigit r with
        | none => none
        | some (fraction, rest) =>
          let (e, rest) := (exponent? rest).getD (0, rest)
          (shownFloat? negative (whole ++ fraction) (e - fraction.length)).map
            fun t => (.float t, rest)
      | _ => match exponent? rest with
        | none => none
        | some (e, rest) => (shownFloat? negative whole e).map fun t => (.float t, rest)

/-- A number of exactly `count` digits between two bounds. -/
def field? (count low high : Nat) (s : Text) : Scan Nat :=
  let t := s.take count
  let n := ofDigits 10 t
  if t.length = count && t.all Char.isDigit && low ≤ n && n ≤ high then some (n, s.drop count)
  else none

/-- What follows a given character. -/
def after? (c : Char) : Text → Option Text
  | d :: r => if c = d then some r else none
  | [] => none

def daysOf (year month : Nat) : Nat :=
  let leap := (year % 4 = 0 && year % 100 ≠ 0) || year % 400 = 0
  if month = 2 then if leap then 29 else 28
  else if month = 4 || month = 6 || month = 9 || month = 11 then 30
  else 31

/-- What follows a date. -/
def date? (s : Text) : Option Text := do
  let (year, r) ← field? 4 0 9999 s
  let (month, r) ← field? 2 1 12 (← after? '-' r)
  let (_, r) ← field? 2 1 (daysOf year month) (← after? '-' r)
  return r

/-- What follows a time of day. -/
def time? (s : Text) : Option Text := do
  let (_, r) ← field? 2 0 23 s
  let (_, r) ← field? 2 0 59 (← after? ':' r)
  let (_, r) ← field? 2 0 60 (← after? ':' r)
  match r with
  | '.' :: c :: r' => return if c.isDigit then r'.dropWhile Char.isDigit else r
  | _ => return r

/-- What follows an offset from universal time. -/
def offset? : Text → Option Text
  | [] => none
  | c :: r =>
    if c = 'Z' || c = 'z' then some r
    else if c = '+' || c = '-' then do
      let (_, r) ← field? 2 0 23 r
      let (_, r) ← field? 2 0 59 (← after? ':' r)
      return r
    else none

/-- What follows a date, a time, or a date with a time and maybe an offset. -/
def dateTime? (s : Text) : Option Text :=
  match date? s with
  | none => time? s
  | some r => match r with
    | c :: r' =>
      if c = 'T' || c = 't' || c = ' ' then
        match time? r' with
        | some r'' => some ((offset? r'').getD r'')
        | none => some r
      else some r
    | [] => some []

/-- The key under which data holds a date or time. -/
def dateTimeKey : Text := "$__toml_private_datetime".toList

/-- A number, date or time. -/
def number? (s : Text) : Scan Data :=
  match dateTime? s with
  | some rest =>
    some (.table [(dateTimeKey, .string (s.take (s.length - rest.length)))], rest)
  | none => (float? s).or (integer? s)

end Folio.Toml
