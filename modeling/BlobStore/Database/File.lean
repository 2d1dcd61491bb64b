import BlobStore.Database.Image
import BlobStore.Database.Name
import BlobStore.Disk.Change

/-!
# Databases in files

Where the path of a database leads, and how its file is opened, read and written. A change is kept
in a journal beside the file while it is made, so what stands at the journal's place matters to
those who open the file and to those who change it.

## Main definitions

* `DatabaseFile.resolve`: the place of the file that a path names
* `DatabaseFile.ofName`: the file of a name, and the database in it
* `DatabaseFile.backend`: the answers, with every change written to the file
-/

namespace BlobStore

/-- Why a name does not open a database. -/
inductive DatabaseError
  | nulAt (position : Nat)
  | name (cause : DatabaseNameError)
  /-- No file can be opened at the place. -/
  | noFile
  /-- No journal, or no log, can be opened beside the file. -/
  | noJournal
  /-- What is in the way cannot be read or removed. -/
  | unreadable
  | readOnly
  | image (fault : Database.ImageFault)
deriving DecidableEq, Repr

/-- The reason as it is reported on the path that was to be opened. -/
def DatabaseError.message (path : String) : DatabaseError → String
  | .nulAt position => s!"nul byte found in provided data at position: {position}"
  | .name cause => cause.message
  | .noFile => s!"unable to open database file: {path}"
  | .noJournal => "unable to open database file"
  | .unreadable => "disk I/O error"
  | .readOnly => "attempt to write a readonly database"
  | .image fault => fault.message

/-- The file of an open database. -/
structure DatabaseFile where
  /-- The number of the file. -/
  number : Nat
  place : Place
  writable : Bool
  /-- Nobody changes the file, so nothing beside it is looked at. -/
  immutable : Bool := false
deriving DecidableEq, Repr

namespace DatabaseFile

/-! ## Places -/

/-- The path of a place from the top. -/
def pathOf (place : Place) : DiskPath := ⟨.text "" :: place⟩

/-- A text that tells a place apart from all others. Bytes that are no text stand behind a zero,
which no name contains. -/
def spelled (place : Place) : String :=
  String.join <| place.map fun
    | .text name => "/" ++ name
    | .raw bytes => "/\x00" ++ String.ofList (bytes.val.map fun b => Char.ofNat b.toNat)

/-- The number of bytes of the text of a place; that of the top has none. -/
def textSize (place : Place) : Nat := total (place.map fun name => name.size + 1)

/-- The number of bytes that the text of a path stays below on the way. -/
def stepLimit : Nat := 512

/-- The most bytes of the path of a journal. -/
def journalLimit : Nat := 512

/-- The most links on the way to a file. -/
def linkLimit : Nat := 201

/-- The place that pieces lead to from another. Two dots lead back to where the last piece led from,
whether it is there or not; a link is handed to `jump` with the pieces behind it. -/
def walk (d : Disk) (jump : Place → DiskPath → List FileName → Option Place) :
    Place → List FileName → Option Place
  | here, [] => some here
  | here, piece :: rest =>
    if DiskPath.isIdle piece then walk d jump here rest
    else if piece = .text ".." then walk d jump here.dropLast rest
    else
      let there := here ++ [piece]
      if textSize there ≥ stepLimit then none
      else
        match d.locate (pathOf there), d.at? there with
        | .ok _, some (.link target) => jump here target rest
        | .ok _, _ | .error .noEntry, _ => walk d jump there rest
        | .error _, _ => none

/-- A walk on which at most so many links are followed. -/
def walks (d : Disk) : Nat → Place → List FileName → Option Place
  | 0 => walk d fun _ _ _ => none
  | n + 1 =>
    walk d fun here target rest =>
      walks d n (if target.absolute then [] else here) (target.pieces ++ rest)

/-- The place of the file that a path names; an end of the path that marks a directory does not
count. -/
def resolve (d : Disk) (path : String) : Option Place :=
  let p := DiskPath.ofText path
  match walks d linkLimit (d.start p) p.pieces with
  | none | some [] => none
  | some place =>
    if textSize place + "-journal".length > journalLimit then none else some place

/-- The place beside a file whose name goes on with some text. -/
def beside (place : Place) (text : String) : Place :=
  place.dropLast ++ [(place.getLast?.getD (.text "")).append text]

/-- Where a change is kept while it is made. -/
def journal (f : DatabaseFile) : Place := beside f.place "-journal"

/-- Where changes stand that are not yet in the file, if they are logged. -/
def log (f : DatabaseFile) : Place := beside f.place "-wal"

/-- Whether something other than an empty file is at a place, links followed. -/
def isPresent (d : Disk) (place : Place) : Bool :=
  match d.stat (pathOf place) with
  | .ok (.file file) => !file.bytes.isEmpty
  | .ok _ => true
  | .error _ => false

/-- Whatever is at a place removed, if it can be. -/
def clear (d : Disk) (place : Place) : Disk := (d.removeFile (pathOf place)).toOption.getD d

/-! ## Changes -/

/-- Whether a journal can be opened. -/
def canJournal (f : DatabaseFile) (d : Disk) : Bool :=
  match d.locate (pathOf f.journal), d.at? f.journal with
  | .error _, _ | .ok _, some .directory | .ok _, some (.link _) => false
  | .ok _, _ => true

/-- Whether the file is still the one at its place. -/
def isAtPlace (f : DatabaseFile) (d : Disk) : Bool :=
  match d.at? f.place with
  | some (.file file) => file.number == f.number
  | _ => false

/-- A database written to its file; the journal is removed. -/
def commit (f : DatabaseFile) (database : Database) (now : Time) (d : Disk) :
    Except DatabaseError Disk :=
  if !f.writable || !f.isAtPlace d then .error .readOnly
  else if !f.canJournal d then .error .noJournal
  else .ok (clear (d.mapFile f.number (fun _ => database.image) now) f.journal)

/-! ## Opening -/

/-- A file with at most one byte becomes a new database. What other databases left beside it is
removed first. -/
def create (f : DatabaseFile) (now : Time) (d : Disk) : Except DatabaseError Database × Disk :=
  let d := if f.writable && isPresent d f.journal then clear d f.journal else d
  let cleared := if !f.immutable && isPresent d f.log then d.removeFile (pathOf f.log) else .ok d
  match cleared with
  | .error _ => (.error .unreadable, d)
  | .ok d =>
    match f.commit Database.empty now d with
    | .error e => (.error e, d)
    | .ok d => (.ok Database.empty, d)

/-- A journal that a change left behind is removed before the file is read, unless its first byte
says that the change was complete. -/
def recover (f : DatabaseFile) (d : Disk) : Except DatabaseError Disk :=
  if f.immutable || !isPresent d f.journal then .ok d
  else
    let begun := match d.at? f.journal with
      | some (.file file) => file.bytes.head? != some 0
      | _ => true
    match begun, f.writable, d.at? f.journal with
    | false, _, _ => .ok d
    | true, _, some .directory => .error .unreadable
    | true, false, _ => .error .readOnly
    | true, true, some (.link _) => .error .noJournal
    | true, true, _ => .ok (clear d f.journal)

/-- The database in the bytes of a file. Everyone who opens the file finds what was written to it
last, as long as its bytes are still those; other bytes are read. -/
def decode (written : Database) (bytes : Bytes) : Except Database.ImageFault Database :=
  if written.image = bytes then .ok written else Database.ofImage bytes

/-- The database in a file. A log beside the file is opened first, and is removed if the bytes hold
no database. -/
def read (f : DatabaseFile) (written : Database) (bytes : Bytes) (d : Disk) :
    Except DatabaseError Database × Disk :=
  let logged := !f.immutable && isPresent d f.log
  match logged, d.at? f.log with
  | true, some .directory | true, some (.link _) => (.error .noJournal, d)
  | _, _ =>
    match decode written bytes with
    | .ok database => (.ok database, d)
    | .error fault => (.error (.image fault), if logged && f.writable then clear d f.log else d)

/-- The database in a file, made if there is none. -/
def load (f : DatabaseFile) (written : Database) (bytes : Bytes) (now : Time) (d : Disk) :
    Except DatabaseError Database × Disk :=
  if bytes.length ≤ 1 then f.create now d
  else
    match f.recover d with
    | .error e => (.error e, d)
    | .ok d => f.read written bytes d

/-- The file at a place, made if that is allowed. A directory can be opened to be read, but gives
nothing. -/
def fileAt (access : DatabaseAccess) (place : Place) (now : Time) (d : Disk) :
    Except DatabaseError (DiskFile × Disk) :=
  match d.at? place with
  | some (.file file) => .ok (file, d)
  | some .directory => .error (if access = .readOnly then .unreadable else .noFile)
  | some (.link _) => .error .noFile
  | none =>
    if access = .creating ∧ d.at? place.dropLast = some .directory then
      (d.fileAt place true now).mapError fun _ => .noFile
    else .error .noFile

/-- The file whose mode a new file is given must be there. -/
def hasModel (name : DatabaseName) (d : Disk) : Bool :=
  match name.option? "modeof" with
  | some path => (d.stat (DiskPath.ofText path)).toBool
  | none => true

/-- The file of a name, and the database in it; `written` tells what was written last to the file of
a number. -/
def ofName (name : DatabaseName) (now : Time) (written : Nat → Database) (d : Disk) :
    Except DatabaseError (DatabaseFile × Database) × Disk :=
  match resolve d name.path with
  | none => (.error .noFile, d)
  | some place =>
    if !hasModel name d then (.error .unreadable, d)
    else
      match fileAt name.access place now d with
      | .error e => (.error e, d)
      | .ok (file, d) =>
        let immutable := name.immutable
        let writable := name.access != .readOnly && !immutable
        let f : DatabaseFile := { number := file.number, place, writable, immutable }
        let (result, d) := f.load (written file.number) file.bytes now d
        (result.map fun database => (f, database), d)

/-! ## Answers -/

/-- The answer of the database, if what it changes can be written to the file. -/
def answer (path : String) (f : DatabaseFile) (r : Request) (now : Time) (s : Disk × Database) :
    Reply r.Answer × Disk × Database :=
  let (d, database) := s
  let (reply, after) := database.answer r now
  if after.changes = database.changes then (reply, s)
  else
    match f.commit after now d with
    | .ok d => (reply, d, after)
    | .error e => (.error (.backend r.subject (e.message path)), s)

/-- The backend of the database in a file, which was opened by a path. -/
def backend (path : String) (f : DatabaseFile) : Backend (Disk × Database) where
  identifier := Database.identifier path
  answer := f.answer path
  intake := .gathering (f.answer path)

end DatabaseFile

end BlobStore
