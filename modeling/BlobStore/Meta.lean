/-!
# Attributes of stored values

A storage reports the attributes that it knows; one that it does not know is absent.

## Main definitions

* `Time`: an instant, in nanoseconds since the Unix epoch
* `Meta`: attributes with their values
* `Meta.holding`: one attribute set, or left alone
* `Meta.size`, `Meta.time`: an attribute read as what it should be
-/

namespace BlobStore

/-- An instant, in nanoseconds since the Unix epoch; earlier instants are negative. -/
structure Time where
  nanos : Int
deriving DecidableEq, Repr, Inhabited

/-- The earliest instant after `t`. -/
def Time.next (t : Time) : Time := ⟨t.nanos + 1⟩

/-- What can be known of a value. -/
inductive Attribute
  | size
  | created
  | modified
  | accessed
deriving DecidableEq, Repr

/-- What an attribute is set to; any kind of value can be given to any attribute. -/
inductive AttributeValue
  | bytes (count : Nat)
  | time (instant : Time)
deriving DecidableEq, Repr

/-- The attributes of a value. -/
structure Meta where
  size? : Option AttributeValue := none
  created? : Option AttributeValue := none
  modified? : Option AttributeValue := none
  accessed? : Option AttributeValue := none
deriving DecidableEq, Repr

namespace Meta

/-- Nothing is known. -/
def empty : Meta := {}

/-- What an attribute is set to. -/
def read (m : Meta) : Attribute → Option AttributeValue
  | .size => m.size?
  | .created => m.created?
  | .modified => m.modified?
  | .accessed => m.accessed?

/-- An attribute set to a value. -/
def write (m : Meta) (which : Attribute) (value : AttributeValue) : Meta :=
  match which with
  | .size => { m with size? := some value }
  | .created => { m with created? := some value }
  | .modified => { m with modified? := some value }
  | .accessed => { m with accessed? := some value }

/-- The attribute set to a value; without a value everything stays. -/
def holding (m : Meta) (which : Attribute) : Option AttributeValue → Meta
  | some value => m.write which value
  | none => m

/-- The size, if it is known and a number of bytes. -/
def size (m : Meta) : Option Nat :=
  match m.read .size with
  | some (.bytes n) => some n
  | _ => none

/-- An attribute that is known and an instant. -/
def time (m : Meta) (which : Attribute) : Option Time :=
  match m.read which with
  | some (.time t) => some t
  | _ => none

end Meta

end BlobStore
