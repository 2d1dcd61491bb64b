import BlobStore.Database.Pages
import BlobStore.Storage

/-!
# Storages in a database

One table of rows, each found by the text of its key. A key whose segments are joined to the same
text as those of another key shares its row. Beside the rows a database keeps account of the pages
that its file has for them.

## Main definitions

* `Row`, `Database`: the table
* `Database.select`: the texts between two bounds
* `Database.refusal?`: requests that are refused because something would be too long
* `Database.backend`: the answers
-/

namespace BlobStore

/-- A row of the table; times are whole milliseconds since the Unix epoch. -/
structure Row where
  /-- Tells the row apart from the others. -/
  id : Nat
  bytes : Bytes
  created : Nat
  modified : Nat
deriving DecidableEq

/-- The rows by the texts of their keys. Texts are ordered by their code points, and so are the
bytes of their UTF-8 forms. -/
structure Database where
  rows : OrderedMap String Row := .empty
  pages : Pages := .empty
  /-- The number of changes, with its making. -/
  changes : Nat := 1
deriving DecidableEq, Inhabited

namespace Database

/-- A new database. -/
def empty : Database := {}

/-- Whole milliseconds since the epoch, none before it. -/
def millis (t : Time) : Nat := (t.nanos / 1000000).toNat

/-- The instant so many milliseconds after the epoch. -/
def instant (millis : Nat) : Time := ⟨(millis : Int) * 1000000⟩

/-- The texts of the keys nested under a key: all, or those that begin with its text and a
delimiter. The character after the delimiter is `0`. -/
def select (scope : Key) (d : Database) : List String :=
  if scope.isRoot then d.rows.keys
  else d.rows.keys.filter fun text => scope.text ++ "/" ≤ text ∧ text < scope.text ++ "0"

/-- The bytes of the record of a row under a text. -/
def payload (text : String) (row : Row) : Nat :=
  rowPayload text row.bytes.length row.created row.modified

/-- The number for a new row: one above the greatest. -/
def nextId (d : Database) : Nat := (d.rows.entries.map (·.2.id)).foldl max 0 + 1

/-- A row written at an instant; one that replaces another keeps its number and the time of its
creation. -/
def write (text : String) (bytes : Bytes) (now : Time) (d : Database) : Database :=
  match d.rows.get? text with
  | some old =>
    let row := { old with bytes, modified := millis now }
    ⟨d.rows.put text row, d.pages.resizeRow row.id (payload text row), d.changes + 1⟩
  | none =>
    let row : Row := ⟨d.nextId, bytes, millis now, millis now⟩
    ⟨d.rows.put text row, (d.pages.addEntry text row.id).addRow row.id (payload text row),
      d.changes + 1⟩

/-- A row removed, if it is there. -/
def erase (text : String) (d : Database) : Database :=
  match d.rows.get? text with
  | some row =>
    ⟨d.rows.erase text, (d.pages.dropRow row.id).dropEntry text, d.changes + 1⟩
  | none => d

/-- First the row of the destination is removed, then that of the source is given its text. -/
def rename (source destination : String) (now : Time) (d : Database) : Option Database :=
  match d.rows.get? source with
  | none => none
  | some _ =>
    let cleared := { d.erase destination with changes := d.changes + 1 }
    match cleared.rows.get? source with
    | some old =>
      let row := { old with modified := millis now }
      let pages := ((cleared.pages.dropEntry source).addEntry destination row.id).resizeRow row.id
        (payload destination row)
      some ⟨(cleared.rows.erase source).put destination row, pages, cleared.changes⟩
    | none => some cleared

/-- The attributes of a row; when it was read is not kept. -/
def describe (row : Row) : Meta where
  size? := some (.bytes row.bytes.length)
  created? := some (.time (instant row.created))
  modified? := some (.time (instant row.modified))

/-! ## Lengths -/

/-- The most bytes of a text, of a value and of the record of a row. -/
def lengthLimit : Nat := 1000000000

/-- From this number of bytes on a text or a value is not handed over at all. -/
def handoverLimit : Nat := 2147483647

/-- Why so many bytes are too many. -/
def tooLong? (length : Nat) : Option String :=
  if length ≥ handoverLimit then some "Error code 18: String or BLOB exceeds size limit"
  else if length > lengthLimit then some "string or blob too big"
  else none

/-- The bytes of the record that a save leaves under a text. -/
def savedPayload (text : String) (length : Nat) (now : Time) (d : Database) : Nat :=
  let created := ((d.rows.get? text).map (·.created)).getD (millis now)
  rowPayload text length created (millis now)

/-- The bytes of the record that a move leaves, unless the row of the source is that of the
destination, which is removed first. -/
def movedPayload? (source destination : String) (now : Time) (d : Database) : Option Nat :=
  ((d.rows.erase destination).get? source).map fun row =>
    payload destination { row with modified := millis now }

/-- Why a request is refused: a text that is looked for, a value, or the record of a row would be
too long. What the statements of a request are given is looked at first, in their order. A content
that cannot be drained is not given to any, and a destination only if there is something to move.
-/
def refusal? (now : Time) (d : Database) : Request → Option String
  | .contains key | .value key | .delete key | .metadata key => tooLong? key.text.utf8ByteSize
  | .list scope => if scope.isRoot then none else tooLong? (scope.text.utf8ByteSize + 1)
  | .save key content =>
    match content.length with
    | .error _ => none
    | .ok length =>
      (tooLong? key.text.utf8ByteSize).or <| (tooLong? length).or <|
        tooLong? (d.savedPayload key.text length now)
  | .move source destination =>
    (tooLong? source.text.utf8ByteSize).or <|
      if source = destination || !d.rows.contains source.text then none
      else (tooLong? destination.text.utf8ByteSize).or <|
        (d.movedPayload? source.text destination.text now).bind tooLong?

/-! ## Answers -/

/-- The answer to a request that is not refused, and the database after it. -/
def perform (r : Request) (now : Time) (d : Database) : Reply r.Answer × Database :=
  match r with
  | .contains key => (.ok (d.rows.contains key.text), d)
  | .list scope => (.ok (Key.sort ((d.select scope).map Key.parse)), d)
  | .save key content =>
    match content.drain with
    | .ok bytes => (.ok (), d.write key.text bytes now)
    | .error e => (.error (.content e), d)
  | .value key =>
    (.orNotFound key ((d.rows.get? key.text).map fun row => Content.ofBytes row.bytes), d)
  | .move source destination =>
    if source = destination then
      if d.rows.contains source.text then (.ok (), d) else (.error (.notFound source), d)
    else
      match d.rename source.text destination.text now with
      | some d => (.ok (), d)
      | none => (.error (.notFound source), d)
  | .delete key =>
    if d.rows.contains key.text then (.ok (), d.erase key.text)
    else (.error (.notFound key), d)
  | .metadata key => (.orNotFound key ((d.rows.get? key.text).map describe), d)

/-- The answer to a request, and the database after it. -/
def answer (r : Request) (now : Time) (d : Database) : Reply r.Answer × Database :=
  match d.refusal? now r with
  | some reason => (.error (.backend r.subject reason), d)
  | none => d.perform r now

/-- What a database that was opened by a path is called in reports. -/
def identifier (path : String) : String := s!"sqlite:{path}"

/-- The backend of a database that no file holds. -/
def backend (path : String) : Backend Database where
  identifier := identifier path
  answer := answer
  intake := .gathering answer

end Database

end BlobStore
