import BlobStore.Number.Binary64

/-!
# Shortest decimals

The decimal with the fewest digits that a reader rounds back to a given binary64 number, and of
several such the one nearest to it.

## Main definitions

* `Binary64.shortest`: the digits and the power of ten
* `Binary64.decimal`: the number as text; plain notation between `1e-5` and `1e16`, with at least
  one digit after the point, and beyond it an exponent with its sign
-/

namespace BlobStore.Binary64

/-- Twice the distance between two fractions over one denominator. -/
def distance (a b : Nat) : Nat := if a ≤ b then b - a else a - b

/-- The multiples of `10 ^ power` next to the number that a reader rounds back to it; the nearer
one first. All quantities are brought to one denominator, where `unit` is `10 ^ power` and `value`
the number, and the numbers from `low` to `high` are those nearer to it than to any other. -/
def hit? (unit value low high : Nat) (closed : Bool) : Option Nat :=
  let below := value / unit
  let above := below + 1
  let fits := fun n : Nat =>
    n != 0 && (if closed then low ≤ n * unit && n * unit ≤ high
      else low < n * unit && n * unit < high)
  let near := distance (below * unit) value
  let far := distance (above * unit) value
  let first := if near < far then below
    else if far < near then above
    else if below % 2 = 0 then below
    else above
  let second := if first = below then above else below
  if fits first then some first else if fits second then some second else none

/-- The digits and the power of ten of the shortest decimal, for a number that is not zero. -/
def shortest (x : Binary64) : Nat × Int :=
  let atEdge := x.mantissa = Nat.pow 2 52 ∧ leastExponent < x.exponent
  let value := 4 * x.mantissa
  let low := if atEdge then value - 1 else value - 2
  let high := value + 2
  let exponent := x.exponent - 2
  let closed := x.mantissa % 2 = 0
  let powers := (List.range 660).map fun (i : Nat) => (310 : Int) - (i : Int)
  let attempt := fun power : Int =>
    let two := fun n : Nat => if 0 ≤ exponent then n * Nat.pow 2 exponent.toNat else n
    let ten := if 0 ≤ exponent then 1 else Nat.pow 2 (-exponent).toNat
    let (scale, unit) :=
      if 0 ≤ power then (1, Nat.pow 10 power.toNat) else (Nat.pow 10 (-power).toNat, 1)
    (hit? (unit * ten) (two value * scale) (two low * scale) (two high * scale) closed).map
      fun digits => (digits, power)
  (powers.findSome? attempt).getD (0, 0)

/-- The digits of a decimal with the point `point` places after the first of them; `point` may
lie outside the digits. -/
def decimal (x : Binary64) : String :=
  let sign := if x.negative then "-" else ""
  if x.isZero then sign ++ "0.0"
  else
    let (number, power) := x.shortest
    let digits := Nat.toDigits 10 number
    let point : Int := digits.length + power
    let zeros := fun n : Int => List.replicate n.toNat '0'
    let body :=
      if 0 ≤ power ∧ point ≤ 16 then digits ++ zeros power ++ ['.', '0']
      else if 0 < point ∧ point ≤ 16 then
        digits.take point.toNat ++ '.' :: digits.drop point.toNat
      else if -5 < point ∧ point ≤ 0 then '0' :: '.' :: zeros (-point) ++ digits
      else
        let mantissa := match digits with
          | first :: next :: rest => first :: '.' :: next :: rest
          | short => short
        let power := point - 1
        mantissa ++ 'e' :: (if power < 0 then '-' else '+') :: (toString power.natAbs).toList
    sign ++ String.ofList body

end BlobStore.Binary64
