/-!
# Decimal integers

Reading an integer of a bounded range from decimal digits. Digits are read from the left, and the
first fault on the way decides: a character that is no digit, or a number that has left the range.

## Main definitions

* `IntegerRange`: the least and the greatest number of a range; the common machine ranges
* `readInteger`: the number of a text, or what is wrong with it
-/

namespace BlobStore.Text

/-- A range that holds `0`; one without negative numbers takes no minus sign. -/
structure IntegerRange where
  least : Int
  greatest : Int
deriving DecidableEq, Repr

namespace IntegerRange

/-- The numbers of so many bits, half of them negative. -/
def signed (bits : Nat) : IntegerRange :=
  let bound := Nat.pow 2 (bits - 1)
  ⟨-bound, bound - 1⟩

/-- The numbers of so many bits, none of them negative. -/
def unsigned (bits : Nat) : IntegerRange := ⟨0, (Nat.pow 2 bits : Nat) - 1⟩

end IntegerRange

/-- Why a text is no integer of a range. -/
inductive IntegerFault
  | empty
  | invalidDigit
  | tooLarge
  | tooSmall
deriving DecidableEq, Repr

/-- The fault in words. -/
def IntegerFault.message : IntegerFault → String
  | .empty => "cannot parse integer from empty string"
  | .invalidDigit => "invalid digit found in string"
  | .tooLarge => "number too large to fit in target type"
  | .tooSmall => "number too small to fit in target type"

/-- The number of a decimal digit. -/
def digit? (c : Char) : Option Nat :=
  if '0' ≤ c ∧ c ≤ '9' then some (c.toNat - '0'.toNat) else none

/-- The digits after a plus sign or none, on top of the number `n` read so far. -/
def readUp (range : IntegerRange) (n : Int) : List Char → Except IntegerFault Int
  | [] => .ok n
  | c :: rest =>
    match digit? c with
    | none => .error .invalidDigit
    | some d =>
      if n * 10 + d ≤ range.greatest then readUp range (n * 10 + d) rest
      else .error .tooLarge

/-- The digits after a minus sign, below the number `n` read so far. -/
def readDown (range : IntegerRange) (n : Int) : List Char → Except IntegerFault Int
  | [] => .ok n
  | c :: rest =>
    match digit? c with
    | none => .error .invalidDigit
    | some d =>
      if range.least ≤ n * 10 - d then readDown range (n * 10 - d) rest
      else .error .tooSmall

/-- The number of a text, with or without a sign. -/
def readInteger (range : IntegerRange) : List Char → Except IntegerFault Int
  | [] => .error .empty
  | ['+'] => .error .invalidDigit
  | ['-'] => .error .invalidDigit
  | '+' :: digits => readUp range 0 digits
  | '-' :: digits =>
    if range.least < 0 then readDown range 0 digits else .error .invalidDigit
  | digits => readUp range 0 digits

end BlobStore.Text
