import Folio.Json.Basic
import Folio.Json.Error

/-! Reading JSON numbers. Integers of up to 64 bits are exact. Any other number is the product or
quotient of a significand of 64 bits and a power of ten: digits that no longer fit into the
significand are left out, and those before the point then raise the power. -/
namespace Folio.Json

/-- A result together with the rest of the input. -/
abbrev Reading (α : Type) := Except Failure (α × Text)

/-- A failure with all of `s` unread. -/
def failHere (fault : Fault) (s : Text) : Failure := ⟨fault, s.byteSize⟩

/-- A failure at the first byte of `s`, which counts as read. -/
def failAt (fault : Fault) (s : Text) : Failure := ⟨fault, s.byteSize - 1⟩

def isDigit (c : Char) : Bool := c.isDigit

def digitValue (c : Char) : Nat := c.toNat - '0'.toNat

/-- The greatest significand. -/
def maxSignificand : Nat := Nat.pow 2 64 - 1

/-- Append digits to a significand as long as it fits; the digits that are left over. -/
def absorb (significand : Nat) : Text → Nat × Text
  | [] => (significand, [])
  | d :: ds =>
    let next := significand * 10 + digitValue d
    if next ≤ maxSignificand then absorb next ds else (significand, d :: ds)

/-- The number nearest to a power of ten of at most 308. -/
def powerOfTen (n : Nat) : Binary64 := (Binary64.nearest false (Nat.pow 10 n) 1).getD (.zero false)

/-- A quotient by a power of ten of at most 308. -/
def divPowerOfTen (x : Binary64) (n : Nat) : Binary64 :=
  (x.div? (powerOfTen n)).getD (.zero false)

/-- `significand * 10 ^ exponent`, computed in rounded steps of at most 308 powers of ten. -/
def scale? (significand : Nat) (exponent : Int) : Option Binary64 :=
  let x := (Binary64.nearest false significand 1).getD (.zero false)
  if x.isZero then some x
  else if 308 < exponent then none
  else if 0 ≤ exponent then x.mul? (powerOfTen exponent.toNat)
  else if -308 ≤ exponent then some (divPowerOfTen x (-exponent).toNat)
  else if -616 ≤ exponent then
    some (divPowerOfTen (divPowerOfTen x 308) (-exponent - 308).toNat)
  else some (.zero false)

def signed (negative : Bool) (x : Binary64) : Binary64 := { x with negative := negative }

/-- A floating-point number with `rest` after it. -/
def floatNumber (negative : Bool) (significand : Nat) (exponent : Int) (rest : Text) :
    Reading Number :=
  match scale? significand exponent with
  | some x => .ok (.float (signed negative x), rest)
  | none => .error (failHere .numberOutOfRange rest)

/-- The greatest exponent that is read as a number. -/
def maxExponent : Nat := Nat.pow 2 31 - 1

/-- The value of a run of digits, or what follows the digit that makes it too large. -/
def exponentDigits (value : Nat) : Text → Except Text (Nat × Text)
  | [] => .ok (value, [])
  | c :: cs =>
    if isDigit c then
      let next := value * 10 + digitValue c
      if next ≤ maxExponent then exponentDigits next cs else .error cs
    else .ok (value, c :: cs)

/-- A number from the digits of its exponent on. -/
def exponentValue (negative : Bool) (significand : Nat) (start : Int) (down : Bool) (s : Text) :
    Reading Number :=
  match s with
  | [] => .error (failHere .eofInValue [])
  | c :: cs =>
    if !isDigit c then .error (failAt .invalidNumber (c :: cs))
    else match exponentDigits 0 (c :: cs) with
      | .ok (e, rest) => floatNumber negative significand (if down then start - e else start + e) rest
      | .error rest =>
        if significand ≠ 0 && !down then .error (failHere .numberOutOfRange rest)
        else .ok (.float (.zero negative), rest.dropWhile isDigit)

/-- A number from after its `e` on. -/
def exponentPart (negative : Bool) (significand : Nat) (start : Int) : Text → Reading Number
  | '+' :: s => exponentValue negative significand start false s
  | '-' :: s => exponentValue negative significand start true s
  | s => exponentValue negative significand start false s

/-- A number from after its decimal point on; `dropped` digits before it were left out. -/
def fractionPart (negative : Bool) (significand dropped : Nat) (s : Text) : Reading Number :=
  let digits := s.takeWhile isDigit
  let rest := s.dropWhile isDigit
  if digits.isEmpty then
    .error (failAt (if rest.isEmpty then .eofInValue else .invalidNumber) rest)
  else
    let (significand, left) := absorb significand digits
    let exponent : Int := dropped - (digits.length - left.length : Nat)
    match rest with
    | 'e' :: r => exponentPart negative significand exponent r
    | 'E' :: r => exponentPart negative significand exponent r
    | r => floatNumber negative significand exponent r

/-- A whole number: a float if it is beyond 64 bits or a negative zero. -/
def wholeNumber (negative : Bool) (n : Nat) : Number :=
  if !negative then .natural n
  else if 0 < n && n ≤ Nat.pow 2 63 then .negative n
  else .float (signed true ((Binary64.nearest false n 1).getD (.zero true)))

/-- A number from after the digits before its point on. -/
def afterWhole (negative : Bool) (significand dropped : Nat) : Text → Reading Number
  | '.' :: r => fractionPart negative significand dropped r
  | 'e' :: r => exponentPart negative significand dropped r
  | 'E' :: r => exponentPart negative significand dropped r
  | r =>
    if dropped = 0 then .ok (wholeNumber negative significand, r)
    else floatNumber negative significand dropped r

/-- A number from after its sign on. -/
def readNumber (negative : Bool) : Text → Reading Number
  | [] => .error (failHere .eofInValue [])
  | c :: cs =>
    if c = '0' then
      match cs with
      | d :: _ =>
        if isDigit d then .error (failAt .invalidNumber cs) else afterWhole negative 0 0 cs
      | [] => afterWhole negative 0 0 []
    else if isDigit c then
      let (significand, left) := absorb 0 ((c :: cs).takeWhile isDigit)
      afterWhole negative significand left.length ((c :: cs).dropWhile isDigit)
    else .error (failAt .invalidNumber (c :: cs))

/-- Step over a number whose value is of no interest. -/
def skipNumber (s : Text) : Except Failure Text :=
  let exponent : Text → Except Failure Text := fun r =>
    let r := match r with
      | '+' :: r => r
      | '-' :: r => r
      | r => r
    if (r.takeWhile isDigit).isEmpty then .error (failAt .invalidNumber r)
    else .ok (r.dropWhile isDigit)
  let afterFraction : Text → Except Failure Text
    | 'e' :: r => exponent r
    | 'E' :: r => exponent r
    | r => .ok r
  let afterDigits : Text → Except Failure Text
    | '.' :: r =>
      if (r.takeWhile isDigit).isEmpty then .error (failAt .invalidNumber r)
      else afterFraction (r.dropWhile isDigit)
    | r => afterFraction r
  match s with
  | '0' :: r =>
    if (r.takeWhile isDigit).isEmpty then afterDigits r else .error (failAt .invalidNumber r)
  | r =>
    if (r.takeWhile isDigit).isEmpty then .error (failAt .invalidNumber r)
    else afterDigits (r.dropWhile isDigit)

end Folio.Json
