import Folio.Text.Basic
import Folio.Decimal.Binary64

/-! The shortest decimal that reads back as a given floating-point number, and its layouts.
A decimal reads back when it lies in the interval of the reals that round to the number; the
interval holds its ends when the mantissa is even. -/
namespace Folio.Decimal

/-- The decimal `0.d₁d₂… * 10 ^ point` with digits `d₁, d₂, …`, the first and last not zero. -/
structure Digits where
  digits : List Nat
  point : Int
deriving DecidableEq, Repr

/-- Four times the value and the two ends of its rounding interval, over a common denominator. -/
structure Interval where
  low : Nat
  value : Nat
  high : Nat
  denominator : Nat
  closed : Bool

/-- The reals that round to a positive number. Below a power of two the numbers lie closer. -/
def intervalOf (x : Binary64) : Interval :=
  let up := if x.exponent < 0 then 1 else Nat.pow 2 x.exponent.toNat
  let down := if x.exponent < 0 then Nat.pow 2 (-x.exponent).toNat else 1
  let m := 4 * x.mantissa
  let low :=
    if x.mantissa = Nat.pow 2 52 && Binary64.minExponent < x.exponent then m - 1 else m - 2
  ⟨low * up, m * up, (m + 2) * up, 4 * down, x.mantissa % 2 == 0⟩

/-- Whether `digits * 10 ^ exponent` lies in an interval. -/
def Interval.holds (i : Interval) (digits : Nat) (exponent : Int) : Bool :=
  let n := if exponent < 0 then digits else digits * Nat.pow 10 exponent.toNat
  let d := if exponent < 0 then Nat.pow 10 (-exponent).toNat else 1
  let point := n * i.denominator
  if i.closed then i.low * d ≤ point && point ≤ i.high * d
  else i.low * d < point && point < i.high * d

/-- The value in units of `10 ^ exponent`, rounded down. -/
def Interval.floorAt (i : Interval) (exponent : Int) : Nat :=
  if exponent < 0 then i.value * Nat.pow 10 (-exponent).toNat / i.denominator
  else i.value / (i.denominator * Nat.pow 10 exponent.toNat)

/-- Whether the value is at least half a unit of `10 ^ exponent` above `digits` of them; an exact
half goes to the even neighbour. -/
def Interval.roundsUp (i : Interval) (digits : Nat) (exponent : Int) : Bool :=
  let v := if exponent < 0 then i.value * Nat.pow 10 (-exponent).toNat else i.value
  let d := if exponent < 0 then i.denominator else i.denominator * Nat.pow 10 exponent.toNat
  let rest := 2 * (v - digits * d)
  d < rest || (rest == d && digits % 2 == 1)

/-- The power of ten of the first digit: the greatest `e` with `10 ^ e` at most the value. -/
def Interval.magnitude (i : Interval) : Int :=
  let guess : Int := ((i.value.log2 : Int) - i.denominator.log2) * 30103 / 100000
  if 0 < i.floorAt (guess + 1) then guess + 1
  else if 0 < i.floorAt guess then guess
  else guess - 1

/-- The decimals with `count` digits next to the value, the nearer one first. -/
def Interval.neighbours (i : Interval) (count : Nat) : List (Nat × Int) :=
  let exponent := i.magnitude + 1 - count
  let below := i.floorAt exponent
  if i.roundsUp below exponent then [(below + 1, exponent), (below, exponent)]
  else [(below, exponent), (below + 1, exponent)]

/-- The digits of a natural number, the first one first, without closing zeros. -/
def significant (n : Nat) : List Nat :=
  let ds := (Nat.toDigits 10 n).map fun c => c.toNat - '0'.toNat
  (ds.reverse.dropWhile (· == 0)).reverse

/-- The first neighbour that reads back, with the fewest digits. Seventeen digits always do. -/
def shortest (x : Binary64) : Digits :=
  if x.mantissa = 0 then ⟨[], 0⟩
  else
    let i := intervalOf x
    let candidates := (List.range' 1 17).flatMap i.neighbours
    match candidates.find? fun (d, e) => i.holds d e with
    | some (d, e) => ⟨significant d, e + (Nat.toDigits 10 d).length⟩
    | none => ⟨[], 0⟩

def digitChar (d : Nat) : Char := Nat.digitChar d

def sign (x : Binary64) : Text := if x.negative then ['-'] else []

/-- Digits with a decimal point and at least one digit on each side of it. -/
def Digits.positional (d : Digits) : Text :=
  let cs := d.digits.map digitChar
  if d.point ≤ 0 then
    "0.".toList ++ List.replicate (-d.point).toNat '0' ++ (if cs.isEmpty then ['0'] else cs)
  else
    let whole := cs.take d.point.toNat
    let rest := cs.drop d.point.toNat
    whole ++ List.replicate (d.point.toNat - whole.length) '0' ++ ['.']
      ++ (if rest.isEmpty then ['0'] else rest)

/-- Digits with one of them before the point and a signed power of ten. -/
def Digits.scientific (d : Digits) : Text :=
  let cs := d.digits.map digitChar
  let mantissa := match cs with
    | [] => ['0']
    | [c] => [c]
    | c :: rest => c :: '.' :: rest
  let e := d.point - 1
  mantissa ++ ['e'] ++ (if e < 0 then Text.ofInt e else '+' :: Text.ofInt e)

/-- The written form of data: positional from `1e-5` up to but not including `1e16`. -/
def data (x : Binary64) : Text :=
  let d := shortest x
  sign x ++ (if x.mantissa = 0 || (-5 < d.point && d.point ≤ 16) then d.positional else d.scientific)

/-- The written form of messages: always positional. -/
def plain (x : Binary64) : Text := sign x ++ (shortest x).positional

end Folio.Decimal
