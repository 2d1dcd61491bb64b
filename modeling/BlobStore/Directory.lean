import BlobStore.Disk.Change
import BlobStore.Storage

/-!
# Storages in a directory

Every value is a file below one directory, the root, with one level of directories for every segment
of its key. A save writes to a draft in a directory of its own under the root and renames it when
the content is complete, so a value is seen whole or not at all. Directories that a removal leaves
empty are removed too, up to the root.

The beginnings of a stored key are directories, so no stored key can be the beginning of another.

## Main definitions

* `Directory.path`: the file of a key
* `Directory.list`: the keys of the files below a directory
* `Directory.save`, `Directory.move`, `Directory.remove`: what changes the disk
* `Directory.backend`: the answers
-/

namespace BlobStore

/-- A storage below the directory that the text names. -/
structure Directory where
  root : String
  /-- The number of the process, which no other process has. -/
  process : Nat
deriving DecidableEq, Repr

namespace Directory

/-- The directory for drafts; listings of the root do not show it. -/
def draftsName : FileName := .text ".tmp"

/-! ## Paths -/

/-- Whether a segment can be the name of a file: as a path it is one name, which is all of it. -/
def isPlain (segment : String) : Bool :=
  match (DiskPath.ofText segment).components with
  | [.name name] => name = .text segment
  | _ => false

/-- The path of the root. -/
def rootPath (dir : Directory) : DiskPath := DiskPath.ofText dir.root

/-- The path of a key, if all its segments can be names of files. -/
def path (dir : Directory) (key : Key) : Except StorageError DiskPath :=
  match key.segments.find? (!isPlain ·) with
  | some segment =>
    .error (.io key ⟨.invalidInput, s!"segment '{segment}' is not a plain file name"⟩)
  | none => .ok (dir.rootPath.descend key.names)

/-- The path of the directory for drafts. -/
def draftsPath (dir : Directory) : DiskPath := dir.rootPath.child draftsName

/-- The path of a draft; its name is made of the process and the draft's own number. -/
def draftPath (dir : Directory) (serial : Nat) : DiskPath :=
  dir.draftsPath.child (.text s!"{dir.process}-{serial}")

/-! ## Files -/

/-- An error of the disk as one about a key. -/
def failure (key : Key) (e : DiskError) : StorageError := .ofIo key e.toIo

/-- The file of a key. -/
def file (dir : Directory) (key : Key) (d : Disk) : Except StorageError DiskFile :=
  match dir.path key with
  | .error e => .error e
  | .ok p =>
    match d.stat p with
    | .ok (.file file) => .ok file
    | .ok _ => .error (.notFound key)
    | .error e => .error (if e.isMissing then .notFound key else failure key e)

/-- Whether a file is at the path of a key. A path that leads nowhere is no failure. -/
def contains (dir : Directory) (key : Key) (d : Disk) : Except StorageError Bool :=
  match dir.path key with
  | .error e => .error e
  | .ok p =>
    match d.stat p with
    | .ok (.file _) => .ok true
    | .ok _ => .ok false
    | .error e => if e.isMissing then .ok false else .error (failure key e)

/-- Whether a path goes on from the path of the root. -/
def isInside (dir : Directory) (p : DiskPath) : Bool :=
  p.components != dir.rootPath.components &&
    dir.rootPath.components.isPrefixOf p.components

/-- The directories on the way to what a path names, from the nearest to the one under the root. -/
def parents (dir : Directory) (p : DiskPath) : List DiskPath :=
  (DiskPath.ascend p.components.length p.parent).takeWhile dir.isInside

/-! ## Listings

A listing goes through the directories below its scope. Links are not followed there, so it comes to
each directory once and there are no more of them than entries on the disk. -/

/-- A listing on its way: the directories that are still to be read, each with its key, the next one
first, and the keys of the files that were found. -/
structure Sweep where
  pending : List (DiskPath × Key)
  found : List Key := []
deriving DecidableEq, Repr

/-- An entry met in a directory: a directory is to be read, a file is found, and a link is passed
over, like the drafts under the root. Its key has the name as a text, which is not the name itself
if that is none. -/
def Sweep.meet (p : DiskPath) (key : Key) (sweep : Sweep) : FileName × DiskEntry → Sweep
  | (name, entry) =>
    if key.isRoot && name.lossy = draftsName.lossy then sweep
    else
      let child := key.child name.lossy
      match entry with
      | .directory => { sweep with pending := (p.child name, child) :: sweep.pending }
      | .file _ => { sweep with found := sweep.found ++ [child] }
      | .link _ => sweep

/-- One directory read after the other, at most `n`. One that is not there any more is skipped. -/
def Sweep.run (read : DiskPath → Except DiskError (List (FileName × DiskEntry))) :
    Nat → Sweep → Except StorageError Sweep
  | 0, sweep => .ok sweep
  | _, ⟨[], found⟩ => .ok ⟨[], found⟩
  | n + 1, ⟨(p, key) :: pending, found⟩ =>
    match read p with
    | .ok entries => run read n (entries.foldl (meet p key) ⟨pending, found⟩)
    | .error e => if e.isMissing then run read n ⟨pending, found⟩ else .error (failure key e)

/-- The keys under `scope`, where `read` reads directories and at most `n` of them are read. -/
def listBy (read : DiskPath → Except DiskError (List (FileName × DiskEntry))) (n : Nat)
    (dir : Directory) (scope : Key) (d : Disk) : Except StorageError (List Key) :=
  match dir.path scope with
  | .error e => .error e
  | .ok p =>
    match d.stat p with
    | .error e => if e.isMissing then .ok [] else .error (failure scope e)
    | .ok .directory =>
      match Sweep.run read n ⟨[(p, scope)], []⟩ with
      | .error e => .error e
      | .ok swept => .ok (Key.sort swept.found)
    | .ok _ => .ok []

/-- The keys of the files under `scope`, through directories only. -/
def list (dir : Directory) (scope : Key) (d : Disk) : Except StorageError (List Key) :=
  dir.listBy d.readDirectory (d.entries.size + 1) scope d

/-! ## Changes -/

/-- What removing a draft that is not kept has to report: a failure, unless it is not there. -/
def dropDraft (dir : Directory) (serial : Nat) (d : Disk) : List Event × Disk :=
  let p := dir.draftPath serial
  match d.removeFile p with
  | .ok d => ([], d)
  | .error .noEntry => ([], d)
  | .error e =>
    ([⟨.warn, .disk, s!"cannot remove temp file {p.text}: {e.message}", []⟩], d)

/-- An empty draft, in a directory that is made if it is not there. -/
def openDraft (dir : Directory) (serial : Nat) (now : Time) (d : Disk) :
    Except DiskError Nat × Disk :=
  match d.makeDirectories dir.draftsPath with
  | (.error e, d) => (.error e, d)
  | (.ok (), d) =>
    match d.createFile (dir.draftPath serial) now with
    | .error e => (.error e, d)
    | .ok (number, d) => (.ok number, d)

/-- A file renamed, after the directories for it are made; the error is `unmade` if they cannot be,
and `unmoved` if the file cannot be renamed. -/
def install (source target : DiskPath) (unmade unmoved : DiskError → StorageError) (d : Disk) :
    Except StorageError Unit × Disk :=
  match d.makeDirectories target.parent with
  | (.error e, d) => (.error (unmade e), d)
  | (.ok (), d) =>
    match d.renameFile source target with
    | .error e => (.error (unmoved e), d)
    | .ok d => (.ok (), d)

/-! ## Saves

The state of a storage is the disk and the number of drafts that it has opened. -/

/-- A save that did not succeed; its draft is dropped. -/
def discard (dir : Directory) {α : Type} (e : StorageError) (serial : Nat) (d : Disk) :
    Reply α × Disk :=
  let (events, d) := dir.dropDraft serial d
  (⟨.error e, events⟩, d)

/-- The start of a save: a draft is opened, if the key has a path. -/
def startSave (dir : Directory) (key : Key) (now : Time) : Disk × Nat → Reply Draft × Disk × Nat
  | (d, serial) =>
    match dir.path key with
    | .error e => (.error e, d, serial)
    | .ok _ =>
      match dir.openDraft serial now d with
      | (.error e, d) =>
        let (reply, d) := dir.discard (failure key e) serial d
        (reply, d, serial + 1)
      | (.ok number, d) => (.ok { file := some ⟨serial, number⟩ }, d, serial + 1)

/-- A piece is written behind what was written before, wherever the file has been moved. -/
def appendDraft (draft : Draft) (piece : Bytes) (now : Time) (d : Disk) : Draft × Disk :=
  let d := match draft.file with
    | some file => d.overwrite file.number draft.bytes.length piece now
    | none => d
  ({ draft with bytes := draft.bytes ++ piece }, d)

/-- The end of a save: the draft is put in place, or removed if that fails. -/
def finishSave (dir : Directory) (key : Key) (draft : Draft) (d : Disk) : Reply Unit × Disk :=
  match dir.path key, draft.file with
  | .error e, _ => (.error e, d)
  | _, none => (.ok (), d)
  | .ok target, some file =>
    let blame := fun (e : DiskError) => StorageError.io key e.toIo
    match install (dir.draftPath file.serial) target blame blame d with
    | (.error e, d) => dir.discard e file.serial d
    | (.ok (), d) => (⟨.ok (), [⟨.debug, .disk, s!"saved {key} to {target.text}", []⟩]⟩, d)

/-- A save given up: its draft is removed. -/
def abandonSave (dir : Directory) (draft : Draft) (d : Disk) : List Event × Disk :=
  match draft.file with
  | some file => dir.dropDraft file.serial d
  | none => ([], d)

/-- A save whose content failed: its draft is removed, and the failure is the result. -/
def failSave (dir : Directory) (draft : Draft) (cause : IoError) (d : Disk) : Reply Unit × Disk :=
  let (events, d) := dir.abandonSave draft d
  (⟨.error (.content (.producer cause)), events⟩, d)

/-- A content written to a draft piece by piece; if all of it comes, the draft is put in place of
what is stored under the key. -/
def save (dir : Directory) (key : Key) (content : Content) (now : Time) (s : Disk × Nat) :
    Reply Unit × Disk × Nat :=
  match dir.startSave key now s with
  | (⟨.error e, events⟩, s) => (⟨.error e, events⟩, s)
  | (⟨.ok draft, _⟩, d, count) =>
    let (chunks, failure, _) := chunksOf content.producer.items
    let (draft, d) := appendDraft draft chunks.flatten now d
    let (reply, d) := match failure with
      | none => dir.finishSave key draft d
      | some cause => dir.failSave draft cause d
    (reply, d, count)

/-! ## Moves and removals -/

/-- The destination is checked before the source. -/
def move (dir : Directory) (source destination : Key) (d : Disk) : Reply Unit × Disk :=
  match dir.path destination with
  | .error e => (.error e, d)
  | .ok target =>
    match dir.file source d, dir.path source with
    | .error e, _ | _, .error e => (.error e, d)
    | .ok _, .ok origin =>
      if source = destination then (.ok (), d)
      else
        let unmade := fun (e : DiskError) => StorageError.io destination e.toIo
        match install origin target unmade (failure source) d with
        | (.error e, d) => (.error e, d)
        | (.ok (), d) => (.ok (), d.removeDirectories (dir.parents origin))

/-- The file of a key removed, with the directories that are left empty. -/
def remove (dir : Directory) (key : Key) (d : Disk) : Reply Unit × Disk :=
  match dir.file key d, dir.path key with
  | .error e, _ | _, .error e => (.error e, d)
  | .ok _, .ok p =>
    match d.removeFile p with
    | .error e => (.error (failure key e), d)
    | .ok d => (.ok (), d.removeDirectories (dir.parents p))

/-! ## Answers -/

/-- The attributes of a file that are kept on the disk. -/
def describe (file : DiskFile) : Meta where
  size? := some (.bytes file.bytes.length)
  created? := some (.time file.created)
  modified? := some (.time file.written)
  accessed? := some (.time file.written)

/-- The bytes of a file, read in chunks. -/
def content (file : DiskFile) : Content := .ofReader [.chunk file.bytes] (some file.bytes.length)

/-- The answer to a request, and the state after it. -/
def answer (dir : Directory) (r : Request) (now : Time) (s : Disk × Nat) :
    Reply r.Answer × Disk × Nat :=
  let (d, count) := s
  match r with
  | .contains key => (⟨dir.contains key d, []⟩, s)
  | .list scope => (⟨dir.list scope d, []⟩, s)
  | .save key content => dir.save key content now s
  | .value key => (⟨(dir.file key d).map content, []⟩, s)
  | .move source destination =>
    let (reply, d) := dir.move source destination d
    (reply, d, count)
  | .delete key =>
    let (reply, d) := dir.remove key d
    (reply, d, count)
  | .metadata key => (⟨(dir.file key d).map describe, []⟩, s)

/-- Saves in steps, through drafts. -/
def intake (dir : Directory) : Intake (Disk × Nat) where
  start key _ now s := dir.startSave key now s
  append draft piece now := Part.first.step (appendDraft draft piece now)
  finish key _ draft _ := Part.first.step (dir.finishSave key draft)
  fail _ _ draft cause _ := Part.first.step (dir.failSave draft cause)
  abandon draft := Part.first.step (dir.abandonSave draft)

/-- The backend in a directory; the number beside the disk counts its drafts. -/
def backend (dir : Directory) : Backend (Disk × Nat) where
  identifier := s!"fs:{dir.root}"
  answer := dir.answer
  intake := dir.intake

end Directory

end BlobStore
