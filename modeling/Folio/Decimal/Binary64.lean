/-! Finite binary floating-point numbers with 53 bits of precision, as exact integers.
`nearest` rounds a quotient of naturals to the nearest such number, a tie to the even one. -/
namespace Folio

/-- The number `mantissa * 2 ^ exponent`, negated if `negative`. Values made by `nearest` have a
mantissa below `2 ^ 53` and an exponent of at least `-1074`, and a mantissa of at least `2 ^ 52`
unless the exponent is `-1074`, so each value has one form up to the sign of zero. -/
structure Binary64 where
  negative : Bool
  mantissa : Nat
  exponent : Int
deriving DecidableEq, Repr, Inhabited

namespace Binary64

/-- The least exponent of a finite number. -/
def minExponent : Int := -1074

/-- The greatest exponent of a finite number. -/
def maxExponent : Int := 971

def zero (negative : Bool) : Binary64 := ⟨negative, 0, minExponent⟩

/-- The quotient of `num` by `den * 2 ^ q`, rounded to the nearest natural, a tie to the even one. -/
def roundScaled (num den : Nat) (q : Int) : Nat :=
  let n := if q < 0 then num * Nat.pow 2 (-q).toNat else num
  let d := if q < 0 then den else den * Nat.pow 2 q.toNat
  let whole := n / d
  let twice := 2 * (n % d)
  if twice < d then whole else if d < twice then whole + 1 else whole + whole % 2

/-- The quotient of `num` by `den * 2 ^ q`, rounded down. -/
def floorScaled (num den : Nat) (q : Int) : Nat :=
  if q < 0 then num * Nat.pow 2 (-q).toNat / den else num / (den * Nat.pow 2 q.toNat)

/-- The finite number nearest to `num / den`; none if that is beyond the greatest. -/
def nearest (negative : Bool) (num den : Nat) : Option Binary64 :=
  if num = 0 then some (zero negative)
  else
    let low : Int := (num.log2 : Int) - den.log2 - 53
    let start := max low minExponent
    let q := if floorScaled num den start < Nat.pow 2 53 then start else start + 1
    let m := roundScaled num den q
    let (m, q) := if m = Nat.pow 2 53 then (Nat.pow 2 52, q + 1) else (m, q)
    if maxExponent < q then none else some ⟨negative, m, q⟩

/-- The absolute value as a quotient of naturals. -/
def ratio (x : Binary64) : Nat × Nat :=
  if x.exponent < 0 then (x.mantissa, Nat.pow 2 (-x.exponent).toNat)
  else (x.mantissa * Nat.pow 2 x.exponent.toNat, 1)

def isZero (x : Binary64) : Bool := x.mantissa == 0

/-- The rounded product. -/
def mul? (x y : Binary64) : Option Binary64 :=
  nearest (x.negative != y.negative) (x.ratio.1 * y.ratio.1) (x.ratio.2 * y.ratio.2)

/-- The rounded quotient by a number that is not zero. -/
def div? (x y : Binary64) : Option Binary64 :=
  nearest (x.negative != y.negative) (x.ratio.1 * y.ratio.2) (x.ratio.2 * y.ratio.1)

/-- The number nearest to `digits * 10 ^ exponent`; none if that is beyond the greatest. Exponents
far outside the range are decided by the number of digits alone. -/
def ofDecimal? (negative : Bool) (digits : Nat) (exponent : Int) : Option Binary64 :=
  let magnitude := exponent + (Nat.toDigits 10 digits).length
  if digits = 0 || magnitude < -400 then some (zero negative)
  else if 400 < magnitude then none
  else if exponent < 0 then nearest negative digits (Nat.pow 10 (-exponent).toNat)
  else nearest negative (digits * Nat.pow 10 exponent.toNat) 1

end Binary64
end Folio
