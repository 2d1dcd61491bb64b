import BlobStore.Content

/-!
# Uses of a content

The ways to look at a content, and what each shows. Those that drain it fail with the first failure
of the producer.

## Main definitions

* `ContentUse`, `ContentView`: the ways and what they show
* `Content.view`: a content looked at in one of the ways
* `Content.pulledBy`: how many items that pulls
-/

namespace BlobStore

/-- What a content is used for. -/
inductive ContentUse
  | bytes
  | text
  /-- The number of bytes, counted. -/
  | measure
  /-- The declared size. -/
  | size
  | debug
  /-- The chunks one by one, with the bounds on their number that are known before. -/
  | chunks
  /-- The lengths of the chunks. -/
  | lengths
  | value (type : ScalarType)
deriving DecidableEq, Repr

/-- What a use of a content shows. -/
inductive ContentView
  | bytes (content : Bytes)
  | text (content : String)
  | number (n : Nat)
  | size (declared : Option Nat)
  | chunks (low : Nat) (high : Option Nat) (items : List Item)
  | lengths (chunks : List Nat)
  | value (scalar : Scalar)
deriving DecidableEq

namespace Content

/-- The items up to the first failure, and that failure. -/
def shownItems : List Item → List Item
  | [] => []
  | .failure cause :: _ => [.failure cause]
  | .chunk bytes :: rest => .chunk bytes :: shownItems rest

/-- What a use of a content shows, or why it fails. -/
def view (content : Content) : ContentUse → Except ContentError ContentView
  | .bytes => content.drain.map .bytes
  | .text => content.text.map .text
  | .measure => content.measure.map fun n => .number n.toNat
  | .size => .ok (.size content.size)
  | .debug => .ok (.text content.debug)
  | .chunks =>
    let (low, high) := content.producer.bounds
    .ok (.chunks low high (shownItems content.producer.items))
  | .lengths =>
    match chunksOf content.producer.items with
    | (chunks, none, _) => .ok (.lengths (chunks.map (·.length)))
    | (_, some cause, _) => .error (.producer cause)
  | .value type => (content.readAs type).map .value

/-- The items that a use leaves unpulled. -/
def unpulledBy (content : Content) : ContentUse → List Item
  | .bytes => content.drained.2
  | .text => content.decoded.2
  | .value type => (content.parsed type.read).2
  | .measure => content.measured.2
  | .chunks | .lengths => (chunksOf content.producer.items).2.2
  | .size | .debug => content.producer.items

/-- The number of items that a use pulls. -/
def pulledBy (content : Content) (use : ContentUse) : Nat :=
  content.producer.items.length - (content.unpulledBy use).length

end Content

end BlobStore
