import BlobStore.Config.Settings
import BlobStore.Database.File
import BlobStore.Directory
import BlobStore.Faulty
import BlobStore.Memory
import BlobStore.Registry

/-!
# The world of a program

Everything that the storages of a program work on: one disk, the databases in its files and in
memory, and the memories and lock tables of the storages that were opened. Storages on one
directory, or on one database, share what they store; each has a lock table of its own.

## Main definitions

* `World`: the state
* `World.openMemory`, `World.openDirectory`, `World.openDatabase`, `World.openFaulty`: new storages
* `World.builtins`, `World.registry`: the backends that are built in
* `World.openFile`, `World.readText`: files outside of storages
-/

namespace BlobStore

/-- A file opened for reading, outside of storages. -/
structure OpenedFile where
  /-- Its size, if that can be told. -/
  size : Except IoError Nat
  /-- What its reads give. -/
  pieces : List Item

/-- Where an open database is. -/
inductive DatabaseHome
  | memory (number : Nat)
  | file (file : DatabaseFile)
deriving DecidableEq, Repr

/-- The state that all storages of a program work on. -/
structure World where
  disk : Disk := {}
  /-- How many drafts each storage in a directory has opened. -/
  drafts : OrderedMap Nat Nat := .empty
  /-- The databases that no file holds. -/
  databases : OrderedMap Nat Database := .empty
  /-- The databases in files, by the numbers of the files. -/
  files : OrderedMap Nat Database := .empty
  /-- The databases that all who open their names share. -/
  shared : OrderedMap String DatabaseHome := .empty
  memories : OrderedMap Nat Memory := .empty
  tables : OrderedMap Nat LockTable := .empty
  /-- Names nothing yet, and nothing above it does. -/
  fresh : Nat := 0
deriving DecidableEq, Inhabited

namespace World

/-! ## Parts -/

/-- The disk. -/
def diskPart : Part World Disk := ⟨World.disk, fun disk w => { w with disk }⟩

/-- The number of drafts that storage `n` has opened. -/
def draftsPart (n : Nat) : Part World Nat where
  get w := (w.drafts.get? n).getD 0
  set count w := { w with drafts := w.drafts.put n count }

/-- The database `n` that no file holds. -/
def databasePart (n : Nat) : Part World Database where
  get w := (w.databases.get? n).getD .empty
  set database w := { w with databases := w.databases.put n database }

/-- What was written last to the file `n`. -/
def filePart (n : Nat) : Part World Database where
  get w := (w.files.get? n).getD .empty
  set database w := { w with files := w.files.put n database }

/-- The memory `n`. -/
def memoryPart (n : Nat) : Part World Memory where
  get w := (w.memories.get? n).getD .empty
  set memory w := { w with memories := w.memories.put n memory }

/-- The lock table `n`. -/
def tablePart (n : Nat) : Part World LockTable where
  get w := (w.tables.get? n).getD {}
  set table w := { w with tables := w.tables.put n table }

/-- A number for something new. -/
def number (w : World) : Nat × World := (w.fresh, { w with fresh := w.fresh + 1 })

/-! ## Storages -/

/-- A new, empty memory, and its number. -/
def openMemory (w : World) : Nat × Storage World × World :=
  let (n, w) := w.number
  (n, Memory.backend.locked.within ((memoryPart n).both (tablePart n)), w)

/-- The number of the program's process; systems give their processes lower ones. -/
def process : Nat := 4194305

/-- The storage below the directory that a text names; it need not be there yet. -/
def openDirectory (w : World) (root : String) : Storage World × World :=
  let (n, w) := w.number
  let dir : Directory := { root, process }
  (dir.backend.locked.within ((diskPart.both (draftsPart n)).both (tablePart n)), w)

/-- A storage whose requests fail. -/
def openFaulty (w : World) (faulty : Faulty) : Storage World × World :=
  let (n, w) := w.number
  (faulty.storage.within (tablePart n), w)

/-! ## Databases -/

/-- The name under which a connection is shared, if it is: what keeps the database, and the path
that it has in full. -/
def connectionName? (w : World) (name : DatabaseName) : Option String :=
  let path? :=
    if name.inMemory then some name.path
    else (DatabaseFile.resolve w.disk name.path).map DatabaseFile.spelled
  if name.shared && name.path != "" then path?.map fun path => s!"{name.keeper}:{path}" else none

/-- The database of a name, made or loaded. -/
def loadDatabase (w : World) (name : DatabaseName) (now : Time) :
    Except DatabaseError DatabaseHome × World :=
  if name.inMemory then
    if name.isTooLong then (.error .noFile, w)
    else if name.isFixed then (.error .readOnly, w)
    else
      let (n, w) := w.number
      (.ok (.memory n), w)
  else
    match DatabaseFile.ofName name now (fun n => (filePart n).get w) w.disk with
    | (.error e, disk) => (.error e, { w with disk })
    | (.ok (file, database), disk) =>
      (.ok (.file file), { w with disk, files := w.files.put file.number database })

/-- What is open under a shared name, or is now opened under it. -/
def findShared (w : World) (shared? : Option String)
    (make : World → Except DatabaseError DatabaseHome × World) :
    Except DatabaseError DatabaseHome × World :=
  match shared?, shared?.bind w.shared.get? with
  | _, some home => (.ok home, w)
  | none, none => make w
  | some shared, none =>
    match make w with
    | (.error e, w) => (.error e, w)
    | (.ok home, w) => (.ok home, { w with shared := w.shared.put shared home })

/-- The database of a name; one that is shared and open already is taken as it is. -/
def findDatabase (w : World) (path : String) (now : Time) :
    Except DatabaseError DatabaseHome × World :=
  match (Utf8.encode path).idxOf? 0, DatabaseName.ofText path with
  | some position, _ => (.error (.nulAt position), w)
  | none, .error e => (.error (.name e), w)
  | none, .ok name =>
    w.findShared (w.connectionName? name) fun w =>
      w.findShared name.keptName? fun w => w.loadDatabase name now

/-- The storage in a database that was opened by a path; its lock table has the number `n`. -/
def databaseStorage (path : String) (n : Nat) : DatabaseHome → Storage World
  | .memory number =>
    (Database.backend path).locked.within ((databasePart number).both (tablePart n))
  | .file file =>
    (file.backend path).locked.within
      ((diskPart.both (filePart file.number)).both (tablePart n))

/-- The storage in the database at a path, or why the database is not opened. -/
def openDatabase (w : World) (path : String) (now : Time) :
    Except DatabaseError (Storage World) × World :=
  match w.findDatabase path now with
  | (.error e, w) => (.error e, w)
  | (.ok home, w) =>
    let (n, w) := w.number
    (.ok (databaseStorage path n home), w)

/-- A world in which no database is open under a shared name. -/
def closed (w : World) : World := { w with shared := .empty }

/-! ## Built-in backends -/

/-- The backend `memory` needs no configuration. -/
def memoryFactory : Factory World := fun _ _ w =>
  let (_, storage, w) := w.openMemory
  (.ok storage, w)

/-- The backend `fs` works below the directory that its configuration names. -/
def directoryFactory : Factory World := fun config _ w =>
  match DirectorySettings.ofConfig config with
  | .error e => (.error (.config e), w)
  | .ok settings =>
    let (storage, w) := w.openDirectory settings.path
    (.ok storage, w)

/-- The backend `sqlite` works in the database that its configuration names. -/
def databaseFactory : Factory World := fun config now w =>
  match DatabaseSettings.ofConfig config with
  | .error e => (.error (.config e), w)
  | .ok { path } =>
    match w.openDatabase path now with
    | (.error e, w) =>
      (.error (.backend Key.root s!"cannot open '{path}': {e.message path}"), w)
    | (.ok storage, w) => (.ok storage, w)

/-- The built-in backends, in the order in which they are registered. -/
def builtins : List (String × Factory World) :=
  [("memory", memoryFactory), ("fs", directoryFactory), ("sqlite", databaseFactory)]

/-- The registry of the built-in backends, which all parts of a program share. -/
def registry : Registry World := .of builtins

/-! ## Files -/

/-- The declared size of a directory that is read as if it were a file. -/
def directorySize : Nat := 4096

/-- A file opened. A directory can be opened, but not read. -/
def openFile (w : World) (path : String) : Except IoError OpenedFile :=
  match w.disk.stat (DiskPath.ofText path) with
  | .ok (.file file) => .ok ⟨.ok file.bytes.length, [.chunk file.bytes]⟩
  | .ok _ => .ok ⟨.ok directorySize, [.failure DiskError.isDirectory.toIo]⟩
  | .error e => .error e.toIo

/-- A file read as text. -/
def readText (w : World) (path : String) : Except IoError String :=
  match w.openFile path with
  | .error e => .error e
  | .ok file =>
    match (Content.ofReader file.pieces none).text with
    | .ok text => .ok text
    | .error (.producer cause) => .error cause
    | .error (.undecodable _) => .error ⟨.invalidData, "stream did not contain valid UTF-8"⟩

end World

end BlobStore
