import BlobStore.Storage

/-!
# Storages in memory

Values in a map ordered by their keys. The keys that share a beginning stand next to each other in
that order, so a listing reads one stretch of the map.

## Main definitions

* `Memory`: the stored values
* `Memory.nested`: the keys under a key
* `Memory.backend`: the answers
-/

namespace BlobStore

/-- A stored value with its times. -/
structure StoredValue where
  bytes : Bytes
  created : Time
  modified : Time
  accessed : Time
deriving DecidableEq

/-- The values by their keys. -/
structure Memory where
  values : OrderedMap Key StoredValue := .empty
deriving DecidableEq, Inhabited

namespace Memory

/-- A memory without values. -/
def empty : Memory := {}

/-- The number of values. -/
def size (m : Memory) : Nat := m.values.size

/-- There are no values. -/
def isEmpty (m : Memory) : Bool := m.values.isEmpty

/-- The stretch of the map that begins at `scope`, without `scope` itself. -/
def nested (scope : Key) (m : Memory) : List Key :=
  ((m.values.keys.dropWhile (· < scope)).takeWhile (·.startsWith scope)).filter (· ≠ scope)

/-- A value written at an instant; one that replaces another keeps the time of its creation. -/
def write (key : Key) (bytes : Bytes) (now : Time) (m : Memory) : Memory :=
  let created := match m.values.get? key with
    | some old => old.created
    | none => now
  ⟨m.values.put key ⟨bytes, created, now, now⟩⟩

/-- A value put under another key, where it keeps the time of its creation. -/
def rename (source destination : Key) (now : Time) (m : Memory) : Option Memory :=
  match m.values.get? source with
  | some old => some ⟨(m.values.erase source).put destination ⟨old.bytes, old.created, now, now⟩⟩
  | none => none

/-- The attributes of a value: all are known. -/
def describe (v : StoredValue) : Meta where
  size? := some (.bytes v.bytes.length)
  created? := some (.time v.created)
  modified? := some (.time v.modified)
  accessed? := some (.time v.accessed)

/-- The answer to a request, and the memory after it. -/
def answer (r : Request) (now : Time) (m : Memory) : Reply r.Answer × Memory :=
  match r with
  | .contains key => (.ok (m.values.contains key), m)
  | .list scope => (.ok (m.nested scope), m)
  | .save key content =>
    match content.drain with
    | .ok bytes => (.ok (), m.write key bytes now)
    | .error e => (.error (.content e), m)
  | .value key =>
    match m.values.get? key with
    | some v => (.ok (Content.ofBytes v.bytes), ⟨m.values.put key { v with accessed := now }⟩)
    | none => (.error (.notFound key), m)
  | .move source destination =>
    match m.rename source destination now with
    | some m => (.ok (), m)
    | none => (.error (.notFound source), m)
  | .delete key =>
    if m.values.contains key then (.ok (), ⟨m.values.erase key⟩) else (.error (.notFound key), m)
  | .metadata key => (.orNotFound key ((m.values.get? key).map describe), m)

/-- The backend that keeps its values in memory. -/
def backend : Backend Memory where
  identifier := "memory"
  answer := answer
  intake := .gathering answer

end Memory

end BlobStore
