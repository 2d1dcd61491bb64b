import BlobStore.Error
import BlobStore.Text.Escape
import BlobStore.Text.Integer
import BlobStore.Text.Utf8

/-!
# Contents

A content is a producer of chunks with an optional declared size. The size is what the producer
says and bounds nothing. A content is drained once; every way of draining it stops at the first
item that is a failure and leaves the items after it untouched.

## Main definitions

* `Item`: what a producer yields, a chunk or a failure
* `Unfolding`: a stream that is unfolded from a state, one item at a pull
* `Producer`, `Producer.items`: the producers and what each yields
* `Drained`: what comes of draining items, with those that were not pulled
* `Content`: a producer with a declared size
* `Content.drain`, `Content.measure`: the bytes, and their number as it is counted
* `Content.text`, `Content.readAs`: the bytes as text and as a value
-/

namespace BlobStore

/-- What a producer yields. -/
inductive Item
  | chunk (bytes : Bytes)
  | failure (cause : IoError)
deriving DecidableEq, Repr

/-! ## Streams over readers -/

/-- The most bytes that one read asks a reader for. -/
def readSize : Nat := 8192

/-- One read of a reader, with room for some bytes: what it gives, and the reader after it. The
reader hands out its pieces one after the other, and a read returns at most what is left of the
current one. It returns no bytes at an empty piece, and at the end. -/
def readOnce (room : Nat) : List Item → Except IoError Bytes × List Item
  | [] => (.ok [], [])
  | .failure cause :: rest => (.error cause, rest)
  | .chunk piece :: rest =>
    match piece.drop room with
    | [] => (.ok piece, rest)
    | left => (.ok (piece.take room), .chunk left :: rest)

/-- A stream that is unfolded from a state. A step comes to the next chunk and the next state, or to
the end, or fails. -/
abbrev Unfolding (σ : Type) := σ → Except IoError (Option (Bytes × σ))

namespace Unfolding

variable {σ : Type}

/-- One pull: the item that it yields, and the state to go on from. The stream has no state any more
once it has ended or failed, and yields nothing then. -/
def pull (step : Unfolding σ) : Option σ → Option Item × Option σ
  | none => (none, none)
  | some s =>
    match step s with
    | .ok (some (chunk, s)) => (some (.chunk chunk), some s)
    | .ok none => (none, none)
    | .error cause => (some (.failure cause), none)

/-- The items that pulls yield up to the first that yields nothing, at most `n` of them. -/
def items (step : Unfolding σ) : Nat → Option σ → List Item
  | 0, _ => []
  | n + 1, state =>
    match step.pull state with
    | (none, _) => []
    | (some item, state) => item :: items step n state

end Unfolding

/-- The stream over a reader: a chunk is what one read returns, and a read that returns no bytes is
the end. -/
def chunkwise : Unfolding (List Item) := fun reader =>
  match readOnce readSize reader with
  | (.error cause, _) => .error cause
  | (.ok [], _) => .ok none
  | (.ok chunk, reader) => .ok (some (chunk, reader))

/-- A bound on the number of reads of a reader. -/
def readsWithin : List Item → Nat
  | [] => 0
  | .failure _ :: rest => 1 + readsWithin rest
  | .chunk piece :: rest => piece.length + 1 + readsWithin rest

/-! ## Producers -/

/-- The producers of chunks. -/
inductive Producer
  /-- No chunk. -/
  | nothing
  /-- One chunk, also when it is empty. -/
  | single (bytes : Bytes)
  /-- The items of a stream, as they come. -/
  | stream (items : List Item)
  /-- The reads of a reader with these pieces and failures. -/
  | reader (pieces : List Item)
deriving DecidableEq

namespace Producer

/-- What a producer yields, if it is asked until it ends. -/
def items : Producer → List Item
  | .nothing => []
  | .single bytes => [.chunk bytes]
  | .stream items => items
  | .reader pieces => chunkwise.items (readsWithin pieces) (some pieces)

/-- Bounds on the number of items, as far as they are known before the first is pulled. -/
def bounds : Producer → Nat × Option Nat
  | .nothing => (0, some 0)
  | .single _ => (1, some 1)
  | .stream items => (items.length, some items.length)
  | .reader _ => (0, none)

end Producer

/-! ## Draining -/

/-- The chunks before the first failure, that failure, and the items that were not pulled. -/
def chunksOf : List Item → List Bytes × Option IoError × List Item
  | [] => ([], none, [])
  | .failure cause :: rest => ([], some cause, rest)
  | .chunk chunk :: rest =>
    let (chunks, failure, unpulled) := chunksOf rest
    (chunk :: chunks, failure, unpulled)

/-- What comes of draining some items, and the items that were not pulled. -/
abbrev Drained (α : Type) := Except ContentError α × List Item

/-- What was drained, read as something else; nothing more is pulled. -/
def Drained.andThen {α β : Type} (drained : Drained α) (read : α → Except ContentError β) :
    Drained β :=
  match drained with
  | (.ok value, left) => (read value, left)
  | (.error e, left) => (.error e, left)

/-- The most room that is made because of a declared size alone. -/
def reserveLimit : Nat := 1048576

/-- The room to make for a content of which some bytes have arrived. The declared size is a hint. -/
def reserve (size : Option Nat) (received : Nat) : Nat :=
  match size with
  | some n => max (min n reserveLimit) received
  | none => received

/-- The bytes of all chunks, behind those that a buffer holds. -/
def gather (buffer : Array UInt8) : List Item → Drained Bytes
  | [] => (.ok buffer.toList, [])
  | .failure cause :: rest => (.error (.producer cause), rest)
  | .chunk chunk :: rest => gather (buffer.appendList chunk) rest

/-- The bytes of all chunks. A chunk that is the only one is handed on as it is; a buffer is made
when there is a second. -/
def concat (size : Option Nat) : List Item → Drained Bytes
  | [] => (.ok [], [])
  | .failure cause :: rest => (.error (.producer cause), rest)
  | [.chunk first] => (.ok first, [])
  | .chunk _ :: .failure cause :: rest => (.error (.producer cause), rest)
  | .chunk first :: .chunk second :: rest =>
    let room := reserve size (first.length + second.length)
    gather (((Array.emptyWithCapacity room).appendList first).appendList second) rest

/-- The number of bytes, counted chunk by chunk on top of `total`. The counter has 64 bits, and goes
on from zero behind the last number. -/
def count (total : UInt64) : List Item → Drained UInt64
  | [] => (.ok total, [])
  | .failure cause :: rest => (.error (.producer cause), rest)
  | .chunk chunk :: rest => count (total + .ofNat chunk.length) rest

/-- The number of bytes of all chunks. -/
def lengthOf : List Item → Except ContentError Nat
  | [] => .ok 0
  | .failure cause :: _ => .error (.producer cause)
  | .chunk chunk :: rest => (lengthOf rest).map (chunk.length + ·)

/-- A producer and the size it declares. -/
structure Content where
  size : Option Nat
  producer : Producer
deriving DecidableEq

/-- A value that text can be read as. -/
inductive Scalar
  | integer (n : Int)
  | boolean (b : Bool)
  | character (c : Char)
  | string (s : String)
deriving DecidableEq, Repr

/-- The types that text can be read as. -/
inductive ScalarType
  | integer (range : Text.IntegerRange)
  | boolean
  | character
  | string
deriving DecidableEq, Repr

/-- A text without blanks at its ends, read as a value, or why it is none. -/
def ScalarType.read (type : ScalarType) (text : List Char) : Except String Scalar :=
  match type, text with
  | .integer range, text =>
    match Text.readInteger range text with
    | .ok n => .ok (.integer n)
    | .error fault => .error fault.message
  | .boolean, text =>
    if text = "true".toList then .ok (.boolean true)
    else if text = "false".toList then .ok (.boolean false)
    else .error "provided string was not `true` or `false`"
  | .character, [] => .error "cannot parse char from empty string"
  | .character, [c] => .ok (.character c)
  | .character, _ => .error "too many characters in string"
  | .string, text => .ok (.string (String.ofList text))

namespace Content

/-- A content without bytes. -/
def empty : Content := ⟨some 0, .nothing⟩

/-- All bytes in one chunk. -/
def ofBytes (bytes : Bytes) : Content := ⟨some bytes.length, .single bytes⟩

/-- The bytes of a text. -/
def ofText (text : String) : Content := ofBytes (Utf8.encode text)

/-- A content that yields given items, of the declared size. -/
def ofStream (items : List Item) (size : Option Nat) : Content := ⟨size, .stream items⟩

/-- The chunks that reading yields, none longer than `readSize`. -/
def ofReader (pieces : List Item) (size : Option Nat) : Content := ⟨size, .reader pieces⟩

/-- The bytes of all chunks in order. -/
def drained (content : Content) : Drained Bytes := concat content.size content.producer.items

/-- The number of bytes, as far as a counter of 64 bits can tell it. -/
def measured (content : Content) : Drained UInt64 := count 0 content.producer.items

/-- How many bytes the content has. -/
def length (content : Content) : Except ContentError Nat := lengthOf content.producer.items

/-- The bytes as UTF-8 text. -/
def decoded (content : Content) : Drained String :=
  content.drained.andThen fun bytes =>
    match Utf8.decode bytes with
    | .ok text => .ok text
    | .error e => .error (.undecodable e.message)

/-- The text as a value; blanks around it do not matter, and the error shows it untrimmed. -/
def parsed {α : Type} (content : Content) (read : List Char → Except String α) : Drained α :=
  content.decoded.andThen fun text =>
    match read (Text.trim text.toList) with
    | .ok value => .ok value
    | .error reason => .error (.undecodable s!"'{text}': {reason}")

/-- All bytes, or the first failure. -/
def drain (content : Content) : Except ContentError Bytes := content.drained.1

/-- The number of bytes as counted, or the first failure. -/
def measure (content : Content) : Except ContentError UInt64 := content.measured.1

/-- The bytes read as a text. -/
def text (content : Content) : Except ContentError String := content.decoded.1

/-- The bytes read as a value of a type. -/
def readAs (content : Content) (type : ScalarType) : Except ContentError Scalar :=
  (content.parsed type.read).1

/-- How a declared size is shown. -/
def sizeText : Option Nat → String
  | some n => s!"Some({n})"
  | none => "None"

/-- A content as it is shown to a developer; its chunks are not. -/
def debug (content : Content) : String :=
  "Content \x7b size: " ++ sizeText content.size ++ ", .. \x7d"

end Content

end BlobStore
