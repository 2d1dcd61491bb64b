import BlobStore.Json
import BlobStore.Key
import BlobStore.Meta

/-!
# The report on a stored value

What is known about a value, as a JSON object over several lines. Times are whole milliseconds
since the Unix epoch; one before the epoch, or too late for 64 bits, is shown as unknown.

## Main definitions

* `Report`, `Report.of`: the figures of a report
* `Report.render`: its text
-/

namespace BlobStore

/-- The figures of a report. -/
structure Report where
  key : String
  size : Option Nat
  created : Option Nat
  modified : Option Nat
  accessed : Option Nat
deriving DecidableEq, Repr

namespace Report

/-- Whole milliseconds since the epoch, in 64 bits. -/
def millis (t : Time) : Option Nat :=
  let count := (t.nanos / 1000000).toNat
  if 0 ≤ t.nanos ∧ count < Nat.pow 2 64 then some count else none

/-- The report on a key and the attributes of its value. -/
def of (key : Key) (m : Meta) : Report where
  key := key.text
  size := m.size
  created := (m.time .created).bind millis
  modified := (m.time .modified).bind millis
  accessed := (m.time .accessed).bind millis

/-- The fields of a report, in the order in which they are shown. -/
def fields (r : Report) : List (String × Json) :=
  let figure : Option Nat → Json
    | some n => .number (.natural n)
    | none => .null
  [("key", .string r.key), ("size", figure r.size), ("created", figure r.created),
    ("modified", figure r.modified), ("accessed", figure r.accessed)]

/-- The report as a text, one field a line. -/
def render (r : Report) : String := Json.prettyFields r.fields

end Report

end BlobStore
