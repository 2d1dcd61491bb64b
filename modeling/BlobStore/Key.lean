/-!
# Hierarchical keys

A key is a sequence of segments. Its text joins the segments with `/`; the root key has no
segments and its text is empty. Segments are free: one that contains `/` makes the text
ambiguous, and nothing here forbids it.

## Main definitions

* `Key`, `Key.root`: keys and the key without segments
* `Key.parse`, `Key.text`: reading and writing the text of a key
* `Key.join`, `Key.startsWith`, `Key.stripStart?`: the prefix algebra
* `Key.excludeAt`, `Key.excludeFirst`, `Key.excludeLast`, `Key.excludeAll`: dropping segments
* `Key.ordered`: the distinct keys of a list, in ascending order
-/

namespace BlobStore

/-- Keys are compared segment by segment, so `a/b` stands before `a/b/c`, and that before
`a/c`. -/
structure Key where
  segments : List String
deriving DecidableEq, Repr, Inhabited

namespace Key

/-! ## Text -/

/-- The delimiter of segments in the text of a key. -/
def delimiter : Char := '/'

/-- The pieces of a text between its delimiters; always at least one. -/
def pieces : List Char → List (List Char)
  | [] => [[]]
  | c :: rest =>
    if c = delimiter then [] :: pieces rest
    else
      match pieces rest with
      | [] => [[c]]
      | piece :: others => (c :: piece) :: others

/-- The pieces with one delimiter between neighbours. -/
def joined : List (List Char) → List Char
  | [] => []
  | [piece] => piece
  | piece :: next :: others => piece ++ delimiter :: joined (next :: others)

/-- The key without segments. -/
def root : Key := ⟨[]⟩

/-- Whether a key has no segments. -/
def isRoot (k : Key) : Bool := k.segments.isEmpty

/-- The key of a text; the empty text is the root, not one empty segment. -/
def parse (text : String) : Key :=
  if text = "" then root else ⟨(pieces text.toList).map String.ofList⟩

/-- The segments with delimiters between them. -/
def text (k : Key) : String :=
  String.ofList (joined (k.segments.map String.toList))

instance : ToString Key := ⟨text⟩

/-! ## Order -/

instance : LT Key := ⟨fun a b => a.segments < b.segments⟩

instance : LE Key := ⟨fun a b => ¬ b.segments < a.segments⟩

instance decidableLT (a b : Key) : Decidable (a < b) :=
  inferInstanceAs (Decidable (a.segments < b.segments))

instance decidableLE (a b : Key) : Decidable (a ≤ b) :=
  inferInstanceAs (Decidable (¬ b.segments < a.segments))

/-- How two keys compare: by their segments, one after the other. -/
def order (a b : Key) : Ordering :=
  if a = b then .eq else if a < b then .lt else .gt

/-- A key put at its place among ascending keys. -/
def insert (k : Key) : List Key → List Key
  | [] => [k]
  | x :: rest => if k ≤ x then k :: x :: rest else x :: insert k rest

/-- Ascending; equal keys stay next to each other. -/
def sort (keys : List Key) : List Key := keys.foldr insert []

/-- A key put at its place among ascending keys, unless it is there already. -/
def place (k : Key) : List Key → List Key
  | [] => [k]
  | x :: rest =>
    if k = x then x :: rest
    else if k < x then k :: x :: rest
    else x :: place k rest

/-- The distinct keys of a list, ascending. -/
def ordered (keys : List Key) : List Key := keys.foldr place []

/-- The texts of keys, as lists of keys are shown in messages. -/
def describe (keys : List Key) : String := ", ".intercalate (keys.map text)

/-! ## Prefixes -/

/-- One segment more. -/
def child (k : Key) (segment : String) : Key := ⟨k.segments ++ [segment]⟩

/-- The segments of the first key, then those of the second. -/
def join (k other : Key) : Key := ⟨k.segments ++ other.segments⟩

/-- All but the last segment; the root has no parent. -/
def parent? (k : Key) : Option Key :=
  if k.segments.isEmpty then none else some ⟨k.segments.dropLast⟩

/-- Segment by segment: `ab/c` does not start with `a`. -/
def startsWith (k scope : Key) : Bool := scope.segments.isPrefixOf k.segments

/-- What follows `scope` in a key that starts with it. -/
def stripStart? (k scope : Key) : Option Key :=
  if k.startsWith scope then some ⟨k.segments.drop scope.segments.length⟩ else none

/-! ## Exclusions -/

/-- The key without the segment at an index; beyond the end nothing is dropped. -/
def excludeAt (k : Key) (index : Nat) : Key := ⟨k.segments.eraseIdx index⟩

/-- The key without the first segment equal to `segment`, if there is one. -/
def excludeFirst (k : Key) (segment : String) : Key :=
  match k.segments.findIdx? (· == segment) with
  | some index => k.excludeAt index
  | none => k

/-- The key without the last segment equal to `segment`, if there is one. -/
def excludeLast (k : Key) (segment : String) : Key :=
  match k.segments.reverse.findIdx? (· == segment) with
  | some index => k.excludeAt (k.segments.length - 1 - index)
  | none => k

/-- The key without any segment equal to `segment`. -/
def excludeAll (k : Key) (segment : String) : Key :=
  ⟨k.segments.filter (· != segment)⟩

end Key

end BlobStore
