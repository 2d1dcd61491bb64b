/-!
# The binary64 format

Finite numbers of the binary64 format, kept as a sign, a whole mantissa below `2 ^ 53` and a
power of two, with the rounding of a positive fraction to the nearest of them.

## Main definitions

* `Binary64`: a finite number
* `Binary64.nearest?`: the nearest number to a fraction; a tie goes to the even mantissa
* `Binary64.times?`, `Binary64.over?`: product and quotient, rounded once
-/

namespace BlobStore

/-- `mantissa * 2 ^ exponent`, negated or not. The mantissa is below `2 ^ 53`, and at least
`2 ^ 52` unless the exponent is the least one. -/
structure Binary64 where
  negative : Bool
  mantissa : Nat
  exponent : Int
deriving DecidableEq, Repr

namespace Binary64

/-- The exponent of the numbers nearest to zero. -/
def leastExponent : Int := -1074

/-- The exponent of the greatest numbers. -/
def greatestExponent : Int := 971

/-- Zero without a sign. -/
def zero : Binary64 := ⟨false, 0, leastExponent⟩

/-- Zero, with or without a sign. -/
def isZero (x : Binary64) : Bool := x.mantissa == 0

/-- A fraction rounded to a whole number; a half goes to the even neighbour. -/
def roundHalfEven (numerator denominator : Nat) : Nat :=
  let whole := numerator / denominator
  let rest := numerator % denominator
  if 2 * rest < denominator then whole
  else if denominator < 2 * rest then whole + 1
  else if whole % 2 = 0 then whole
  else whole + 1

/-- The fraction divided by `2 ^ exponent`. -/
def scaled (numerator denominator : Nat) (exponent : Int) : Nat × Nat :=
  if 0 ≤ exponent then (numerator, denominator * Nat.pow 2 exponent.toNat)
  else (numerator * Nat.pow 2 (-exponent).toNat, denominator)

/-- The exponent at which a fraction has 53 bits before the point, unless that is too small. -/
def exponentOf (numerator denominator : Nat) : Int :=
  let guess : Int := (numerator.log2 : Int) - (denominator.log2 : Int) - 52
  let (n, d) := scaled numerator denominator guess
  max leastExponent (if n < Nat.pow 2 52 * d then guess - 1 else guess)

/-- The nearest number to a fraction, or `none` if that is beyond the greatest one. -/
def nearest? (negative : Bool) (numerator denominator : Nat) : Option Binary64 :=
  if numerator = 0 then some ⟨negative, 0, leastExponent⟩
  else
    let exponent := exponentOf numerator denominator
    let (n, d) := scaled numerator denominator exponent
    let mantissa := roundHalfEven n d
    let (mantissa, exponent) :=
      if mantissa = Nat.pow 2 53 then (Nat.pow 2 52, exponent + 1) else (mantissa, exponent)
    if greatestExponent < exponent then none else some ⟨negative, mantissa, exponent⟩

/-- The number as a fraction, without its sign. -/
def fraction (x : Binary64) : Nat × Nat :=
  if 0 ≤ x.exponent then (x.mantissa * Nat.pow 2 x.exponent.toNat, 1)
  else (x.mantissa, Nat.pow 2 (-x.exponent).toNat)

/-- The product, rounded, unless it is too large. -/
def times? (x y : Binary64) : Option Binary64 :=
  let (a, b) := x.fraction
  let (c, d) := y.fraction
  nearest? (x.negative != y.negative) (a * c) (b * d)

/-- The divisor must not be zero. -/
def over? (x y : Binary64) : Option Binary64 :=
  let (a, b) := x.fraction
  let (c, d) := y.fraction
  nearest? (x.negative != y.negative) (a * d) (b * c)

/-- The number with the other sign. -/
def negate (x : Binary64) : Binary64 := { x with negative := !x.negative }

end Binary64

end BlobStore
