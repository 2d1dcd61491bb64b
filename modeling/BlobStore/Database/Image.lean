import BlobStore.Database

/-!
# Files of databases

The bytes of the file of a database, page by page, and the database that bytes are the file of. The
first page describes the file and lists the table and its index. On the pages of the b-trees the
cells stand from the end of the page backwards, and their places are listed at its beginning.

## Main definitions

* `Database.image`: the bytes of the file
* `Database.ofImage`: the database of a file, or why there is none in it
-/

namespace BlobStore

/-! ## Numbers -/

/-- A number in two bytes, the high one first. -/
def twoBytes (n : Nat) : Bytes := [UInt8.ofNat (n / 256), UInt8.ofNat n]

/-- A number in so many bytes, the high ones first. -/
def fixedBytes : Nat → Nat → Bytes
  | 0, _ => []
  | size + 1, n => fixedBytes size (n / 256) ++ [UInt8.ofNat n]

/-- The bytes with seven bits each of a number, all but the last marked by their top bit. -/
def varintOf : Nat → Nat → Bytes
  | 0, _ => []
  | size + 1, n => (varintOf size (n / 128)).map (· ||| 0x80) ++ [UInt8.ofNat (n % 128)]

/-- A number in as few such bytes as it needs. -/
def varint (n : Nat) : Bytes := varintOf (varintSize n) n

/-- So many zeros. -/
def zeros (n : Nat) : Bytes := List.replicate n 0

/-- Bytes with zeros behind them up to a size. -/
def padded (size : Nat) (bytes : Bytes) : Bytes := bytes ++ zeros (size - bytes.length)

namespace Database

/-! ## Records -/

/-- A record: the size of its head, the codes of its values, and the values. -/
def recordOf (codes : List Nat) (values : Bytes) : Bytes :=
  varint (headSize codes) ++ codes.flatMap varint ++ values

/-- A number in the bytes that a record has for it. -/
def integerBytes (n : Nat) : Bytes := fixedBytes (integerCode n).2 n

/-- The record of a row: the text of its key, its bytes and its times. -/
def rowRecord (text : String) (row : Row) : Bytes :=
  recordOf
    [textCode text.utf8ByteSize, bytesCode row.bytes.length, (integerCode row.created).1,
      (integerCode row.modified).1]
    (Utf8.encode text ++ row.bytes ++ integerBytes row.created ++ integerBytes row.modified)

/-- The record of an entry of the index: the text of a key and the number of the row. -/
def entryRecord (text : String) (id : Nat) : Bytes :=
  recordOf [textCode text.utf8ByteSize, (integerCode id).1] (Utf8.encode text ++ integerBytes id)

/-! ## Pages -/

/-- The record of a cell, and how much of it its page may hold. -/
def cellRecord (d : Database) : Cell → Nat × Bytes
  | .row id _ _ =>
    match d.rows.entries.find? (·.2.id = id) with
    | some (text, row) => (rowLimit, rowRecord text row)
    | none => (rowLimit, [])
  | .bound _ _ => (0, [])
  | .entry _ text id _ => (entryLimit, entryRecord text id)

/-- A record as it stands on a page. -/
def recordBytes (most : Nat) (record : Bytes) (overflow : List Nat) : Bytes :=
  record.take (localSize most record.length) ++ (overflow.take 1).flatMap (fixedBytes 4)

/-- A cell as it stands on its page; what does not fit continues elsewhere. -/
def cellBytes (d : Database) (leaf : Bool) (cell : Cell) : Bytes :=
  let (most, record) := d.cellRecord cell
  match cell with
  | .row id _ overflow =>
    padded 4 (varint record.length ++ varint id ++ recordBytes most record overflow)
  | .bound child id => fixedBytes 4 child ++ varint id
  | .entry child _ _ overflow =>
    let body := padded 4 (varint record.length ++ recordBytes most record overflow)
    if leaf then body else fixedBytes 4 child ++ body

/-- What a record continues with, page by page; every page begins with the number of the next. -/
def overflowPages : List Nat → Bytes → List (Nat × Bytes)
  | [], _ => []
  | n :: rest, bytes =>
    (n, fixedBytes 4 (rest.head?.getD 0) ++ padded (pageSize - 4) (bytes.take (pageSize - 4))) ::
      overflowPages rest (bytes.drop (pageSize - 4))

/-- The code of the kind of a page. -/
def kindOf (n : Nat) (page : Page) : UInt8 :=
  let isTable := match page.cells with
    | .entry _ _ _ _ :: _ => false
    | [] => n == Pages.table
    | _ => true
  match isTable, page.leaf with
  | true, true => 0x0D
  | true, false => 0x05
  | false, true => 0x0A
  | false, false => 0x02

/-- The places of cells that stand one before the other, the first before `stop`. -/
def cellPlaces (stop : Nat) : List Nat → List Nat
  | [] => []
  | size :: rest => (stop - size) :: cellPlaces (stop - size) rest

/-- A page of a b-tree: its head, the places of its cells, a gap and the cells. -/
def nodeBytes (d : Database) (n : Nat) (page : Page) : Bytes :=
  let cells := page.cells.map (d.cellBytes page.leaf)
  let places := cellPlaces pageSize (cells.map List.length)
  let start := places.getLast?.getD pageSize
  let head := [kindOf n page, 0, 0] ++ twoBytes cells.length ++ twoBytes start ++ [0] ++
    (if page.leaf then [] else fixedBytes 4 page.right) ++ places.flatMap twoBytes
  padded start head ++ cells.reverse.flatten

/-- The pages that can be used again: the first of every `leavesOnTrunk + 1` lists the others. -/
def freePages (leavesOnTrunk : Nat) : Nat → List Nat → List (Nat × Bytes)
  | 0, _ | _, [] => []
  | fuel + 1, trunk :: rest =>
    let leaves := rest.take leavesOnTrunk
    let others := rest.drop leavesOnTrunk
    (trunk, fixedBytes 4 (others.head?.getD 0) ++ fixedBytes 4 leaves.length ++
      leaves.flatMap (fixedBytes 4)) :: freePages leavesOnTrunk fuel others

/-! ## The first page -/

/-- What every file of a database begins with. -/
def magic : Bytes := Utf8.encode "SQLite format 3\x00"

/-- What follows the page size: versions of the format, no bytes kept back, and fixed shares. -/
def formats : Bytes := [1, 1, 0, 64, 32, 32]

/-- The version of the writer. -/
def writer : Nat := 3046000

/-- The statement that makes the table. -/
def tableText : String :=
  "CREATE TABLE blobs (\n                key TEXT PRIMARY KEY,\n" ++
  "                data BLOB NOT NULL,\n                created INTEGER NOT NULL,\n" ++
  "                modified INTEGER NOT NULL\n            )"

/-- The list of the table and its index, with a gap at the end. -/
def listing : Bytes :=
  let table := recordOf [textCode 5, textCode 5, textCode 5, 1, textCode tableText.utf8ByteSize]
    (Utf8.encode "tableblobsblobs" ++ [UInt8.ofNat Pages.table] ++ Utf8.encode tableText)
  let index := recordOf [textCode 5, textCode 24, textCode 5, 1, 0]
    (Utf8.encode "indexsqlite_autoindex_blobs_1blobs" ++ [UInt8.ofNat Pages.index])
  let gap : Bytes := [0, 0, 0, 8, 0, 0, 0, 0]
  let indexCell := varint index.length ++ varint 2 ++ index
  let tableCell := varint table.length ++ varint 1 ++ table
  let indexPlace := pageSize - gap.length - indexCell.length
  let tablePlace := indexPlace - tableCell.length
  let head : Bytes := [0x0D] ++ twoBytes (pageSize - gap.length) ++ twoBytes 2 ++
    twoBytes tablePlace ++ [0] ++ twoBytes tablePlace ++ twoBytes indexPlace
  padded (tablePlace - 100) head ++ tableCell ++ indexCell ++ gap

/-- The head of the file, with the counters of the database, and the list behind it. -/
def firstPage (d : Database) : Bytes :=
  magic ++ twoBytes pageSize ++ formats ++ fixedBytes 4 d.changes ++ fixedBytes 4 d.pages.count ++
    fixedBytes 4 (d.pages.free.head?.getD 0) ++ fixedBytes 4 d.pages.free.length ++
    [1, 4, 0, 0, 1, 0, 0, 0].flatMap (fixedBytes 4) ++ zeros 20 ++ fixedBytes 4 d.changes ++
    fixedBytes 4 writer ++ listing

/-- The bytes of the file of a database. -/
def image (d : Database) : Bytes :=
  let nodes := d.pages.nodes.entries.map fun (n, page) => (n, d.nodeBytes n page)
  let overflow := d.pages.nodes.entries.flatMap fun (_, page) =>
    page.cells.flatMap fun cell =>
      let (most, record) := d.cellRecord cell
      overflowPages cell.overflow (record.drop (localSize most record.length))
  let free := freePages (pageSize / 4 - 8) d.pages.free.length d.pages.free
  let others := nodes ++ overflow ++ free
  padded pageSize d.firstPage ++ (List.range (d.pages.count - 1)).flatMap fun i =>
    padded pageSize ((others.lookup (i + 2)).getD [])

/-! ## Reading -/

/-- Why bytes are not the file of a database. -/
inductive ImageFault
  /-- They do not begin as such a file does. -/
  | foreign
  /-- They begin so, but do not go on so. -/
  | malformed
deriving DecidableEq, Repr

/-- The fault in words. -/
def ImageFault.message : ImageFault → String
  | .foreign => "file is not a database"
  | .malformed => "database disk image is malformed"

/-- The number in so many bytes. -/
def readFixed (bytes : Bytes) : Nat := bytes.foldl (fun n b => n * 256 + b.toNat) 0

/-- The number that bytes begin with, and the bytes behind it. -/
def readVarint (n : Nat) : Bytes → Nat × Bytes
  | [] => (n, [])
  | b :: rest =>
    if b < 0x80 then (n * 128 + b.toNat, rest) else readVarint (n * 128 + b.toNat % 128) rest

/-- The codes of a record. -/
def readCodes : Nat → Bytes → List Nat
  | 0, _ | _, [] => []
  | fuel + 1, bytes =>
    let (code, rest) := readVarint 0 bytes
    code :: readCodes fuel rest

/-- The bytes that a value takes in a record. -/
def valueSize (code : Nat) : Nat :=
  if code ≥ 12 then (code - 12) / 2
  else ([0, 1, 2, 3, 4, 6, 8, 8] : List Nat).getD code 0

/-- The values of a record: the codes, and the bytes of each. -/
def readRecord (record : Bytes) : List (Nat × Bytes) :=
  let (head, rest) := readVarint 0 record
  let codes := readCodes head (rest.take (head - (record.length - rest.length)))
  (codes.foldl
    (fun (values, rest) code =>
      ((code, rest.take (valueSize code)) :: values, rest.drop (valueSize code)))
    (([] : List (Nat × Bytes)), record.drop head)).1.reverse

/-- The number that a value of a record is; code 9 stands for one without any bytes. -/
def readInteger : Nat × Bytes → Nat
  | (9, _) => 1
  | (_, bytes) => readFixed bytes

/-- Bytes read as a text; what is no text is read as the empty one. -/
def readText (bytes : Bytes) : String :=
  match Utf8.decode bytes with
  | .ok text => text
  | .error _ => ""

/-- The pages of a file, the first under 1. -/
abbrev PageSource := Nat → Bytes

/-- The pages that a record continues on, and what they hold. -/
def readOverflow (source : PageSource) : Nat → Nat → List Nat × Bytes
  | 0, _ => ([], [])
  | left + 1, n =>
    let page := source n
    let (others, bytes) := readOverflow source left (readFixed (page.take 4))
    (n :: others, page.drop 4 ++ bytes)

/-- A record of a known length at the beginning of bytes on a page, and where it continues. -/
def readSpread (source : PageSource) (most payload : Nat) (bytes : Bytes) : List Nat × Bytes :=
  let here := localSize most payload
  let (overflow, more) :=
    readOverflow source (spill most payload) (readFixed ((bytes.drop here).take 4))
  (overflow, (bytes.take here ++ more).take payload)

/-- What is gathered from the pages of a file. -/
structure Found where
  nodes : OrderedMap Nat Page := .empty
  rows : OrderedMap String Row := .empty

/-- A cell, and the row that it is. -/
def readCell (source : PageSource) (kind : UInt8) (bytes : Bytes) :
    Cell × Option (String × Row) :=
  let child := readFixed (bytes.take 4)
  if kind = 0x05 then (.bound child (readVarint 0 (bytes.drop 4)).1, none)
  else if kind = 0x0D then
    let (payload, rest) := readVarint 0 bytes
    let (id, rest) := readVarint 0 rest
    let (overflow, record) := readSpread source rowLimit payload rest
    let row := match readRecord record with
      | [text, content, created, modified] =>
        some (readText text.2, ⟨id, content.2, readInteger created, readInteger modified⟩)
      | _ => none
    (.row id payload overflow, row)
  else
    let leaf := kind = 0x0A
    let (payload, rest) := readVarint 0 (if leaf then bytes else bytes.drop 4)
    let (overflow, record) := readSpread source entryLimit payload rest
    match readRecord record with
    | [text, id] =>
      (.entry (if leaf then 0 else child) (readText text.2) (readInteger id) overflow, none)
    | _ => (.entry 0 "" 0 [], none)

/-- A page of a b-tree with all pages below it. -/
def readNode (source : PageSource) : Nat → Found → Nat → Found
  | 0, found, _ => found
  | fuel + 1, found, n =>
    let bytes := source n
    let kind := bytes.head?.getD 0
    let leaf := kind = 0x0D ∨ kind = 0x0A
    let count := readFixed ((bytes.drop 3).take 2)
    let start := if leaf then 8 else 12
    let cells := (List.range count).map fun i =>
      readCell source kind (bytes.drop (readFixed ((bytes.drop (start + 2 * i)).take 2)))
    let right := if leaf then 0 else readFixed ((bytes.drop 8).take 4)
    let page : Page := { leaf, cells := cells.map (·.1), right }
    let rows := cells.foldl
      (fun rows cell => match cell.2 with
        | some (text, row) => rows.put text row
        | none => rows)
      found.rows
    page.children.foldl (readNode source fuel) ⟨found.nodes.put n page, rows⟩

/-- The pages that can be used again. -/
def readFree (source : PageSource) : Nat → Nat → List Nat
  | 0, _ | _, 0 => []
  | fuel + 1, trunk =>
    let bytes := source trunk
    let count := readFixed ((bytes.drop 4).take 4)
    let leaves := (List.range count).map fun i => readFixed ((bytes.drop (8 + 4 * i)).take 4)
    trunk :: leaves ++ readFree source fuel (readFixed (bytes.take 4))

/-- The beginning of a file: what the first page must say before it is read on. -/
def checkHead (bytes : Bytes) : Except ImageFault Unit :=
  let head := padded 100 bytes
  let at? := fun i : Nat => head.getD i 0
  let size := (at? 16).toNat * 256 + (at? 17).toNat * 65536
  let powers := (List.range 8).map fun i => Nat.pow 2 (i + 9)
  if head.take 16 ≠ magic then .error .foreign
  else if at? 19 > 2 ∨ (head.drop 21).take 3 ≠ [64, 32, 32] then .error .foreign
  else if size ∉ powers then .error .foreign
  else
    let declared := if (head.drop 24).take 4 = (head.drop 92).take 4
      then readFixed ((head.drop 28).take 4) else 0
    if declared * size > bytes.length + size - 1 then .error .malformed
    else if size - (at? 20).toNat < 480 then .error .foreign
    else .ok ()

/-- The database of a file. A file that lists other tables is not read. -/
def ofImage (bytes : Bytes) : Except ImageFault Database :=
  match checkHead bytes with
  | .error e => .error e
  | .ok () =>
    if (bytes.take pageSize).drop 100 ≠ listing then .error .malformed
    else
      let source : PageSource := fun n => (bytes.drop ((n - 1) * pageSize)).take pageSize
      let number := fun i : Nat => readFixed ((bytes.drop i).take 4)
      let count := number 28
      let found := readNode source count (readNode source count {} Pages.table) Pages.index
      .ok
        { rows := found.rows
          pages := { nodes := found.nodes, free := readFree source count (number 32), count }
          changes := number 24 }

end Database

end BlobStore
