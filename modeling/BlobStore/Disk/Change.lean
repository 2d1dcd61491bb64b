import BlobStore.Disk

/-!
# Changes of a disk

The calls that change a disk. Each works on the last part of its path without following a link
there, and fails without a change. Making a path of directories is a series of calls, and leaves
what it made before it failed.

## Main definitions

* `Disk.makeDirectory`, `Disk.makeDirectories`: new directories
* `Disk.openFile`, `Disk.createFile`, `Disk.overwrite`: files and what they hold
* `Disk.removeFile`, `Disk.renameFile`: the names of files
* `Disk.removeDirectory`, `Disk.removeDirectories`: empty directories
-/

namespace BlobStore.Disk

/-- An entry put at a place. -/
def put (d : Disk) (place : Place) (entry : DiskEntry) : Disk :=
  { d with entries := d.entries.put place entry }

/-- Nothing left at a place. -/
def erase (d : Disk) (place : Place) : Disk := { d with entries := d.entries.erase place }

/-! ## Directories -/

/-- A new directory; its parent must be there. -/
def makeDirectory (d : Disk) (p : DiskPath) : Except DiskError Disk :=
  match d.locate p with
  | .error e => .error e
  | .ok (_, none) => .error .exists
  | .ok (here, some name) =>
    match d.at? (here ++ [name]) with
    | some _ => .error .exists
    | none => .ok (d.put (here ++ [name]) .directory)

/-- A directory made, if it is not there already. -/
def ensureDirectory (d : Disk) (p : DiskPath) : Except DiskError Disk :=
  match d.makeDirectory p with
  | .ok d => .ok d
  | .error e => if d.isDirectory p then .ok d else .error e

/-- The first of some paths made a directory, after the others if they are missing. -/
def makeFirst (d : Disk) : List DiskPath → Except DiskError Unit × Disk
  | [] => (.ok (), d)
  | p :: above =>
    match d.ensureDirectory p with
    | .ok d => (.ok (), d)
    | .error .noEntry =>
      match makeFirst d above with
      | (.error e, d) => (.error e, d)
      | (.ok (), d) =>
        match d.ensureDirectory p with
        | .ok d => (.ok (), d)
        | .error e => (.error e, d)
    | .error e => (.error e, d)

/-- A directory made, with all directories above it that are missing. -/
def makeDirectories (d : Disk) (p : DiskPath) : Except DiskError Unit × Disk :=
  d.makeFirst p.ancestry

/-- An empty directory removed. -/
def removeDirectory (d : Disk) (p : DiskPath) : Except DiskError Disk :=
  match d.locate p with
  | .error e => .error e
  | .ok (_, none) => .error .busy
  | .ok (here, some name) =>
    let place := here ++ [name]
    match d.at? place with
    | none => .error .noEntry
    | some .directory => if (d.below place).isEmpty then .ok (d.erase place) else .error .notEmpty
    | some _ => .error .notDirectory

/-- Directories removed one after the other, up to the first that cannot be. -/
def removeDirectories (d : Disk) : List DiskPath → Disk
  | [] => d
  | p :: rest =>
    match d.removeDirectory p with
    | .ok d => removeDirectories d rest
    | .error _ => d

/-! ## Files -/

/-- The file at a place; if nothing is there, an empty one is made, where that is allowed. -/
def fileAt (d : Disk) (place : Place) (create : Bool) (now : Time) :
    Except DiskError (DiskFile × Disk) :=
  match d.at? place with
  | some (.file file) => .ok (file, d)
  | some _ => .error .isDirectory
  | none =>
    if create then
      let file : DiskFile := ⟨d.fresh, [], now, now⟩
      .ok (file, { d.put place (.file file) with fresh := d.fresh + 1 })
    else .error .noEntry

/-- The file that a path names, links followed; made if it is not there. -/
def openFile (d : Disk) (p : DiskPath) (now : Time) : Except DiskError (DiskFile × Disk) :=
  if p.closed then
    match d.locate p with
    | .error e => .error e
    | .ok _ => .error .isDirectory
  else
    match d.reach .name p with
    | .error e => .error e
    | .ok place => d.fileAt place true now

/-- What the file with a number holds changed; nothing happens if the file has no name any more. -/
def mapFile (d : Disk) (number : Nat) (f : Bytes → Bytes) (now : Time) : Disk :=
  match d.find? number with
  | some (place, file) => d.put place (.file { file with bytes := f file.bytes, written := now })
  | none => d

/-- Bytes put into others from an offset on, with zeros up to it if there are fewer. -/
def splice (offset : Nat) (part whole : Bytes) : Bytes :=
  whole.take offset ++ List.replicate (offset - whole.length) 0 ++ part ++
    whole.drop (offset + part.length)

/-- Bytes written from an offset on into the file with a number. -/
def overwrite (d : Disk) (number offset : Nat) (part : Bytes) (now : Time) : Disk :=
  if part.isEmpty then d else d.mapFile number (splice offset part) now

/-- An empty file made, or the file that is there emptied. -/
def createFile (d : Disk) (p : DiskPath) (now : Time) : Except DiskError (Nat × Disk) :=
  match d.openFile p now with
  | .error e => .error e
  | .ok (file, d) => .ok (file.number, d.mapFile file.number (fun _ => []) now)

/-- A file made with what it holds, or given it in place of what it held. -/
def writeFile (d : Disk) (p : DiskPath) (bytes : Bytes) (now : Time) : Except DiskError Disk :=
  match d.createFile p now with
  | .error e => .error e
  | .ok (number, d) => .ok (d.overwrite number 0 bytes now)

/-- A link made. -/
def makeLink (d : Disk) (p : DiskPath) (target : DiskPath) : Except DiskError Disk :=
  match d.locate p with
  | .error e => .error e
  | .ok (_, none) => .error .exists
  | .ok (here, some name) =>
    match d.at? (here ++ [name]) with
    | some _ => .error .exists
    | none => .ok (d.put (here ++ [name]) (.link target))

/-- A file or a link removed. -/
def removeFile (d : Disk) (p : DiskPath) : Except DiskError Disk :=
  match d.locate p with
  | .error e => .error e
  | .ok (_, none) => .error .isDirectory
  | .ok (here, some name) =>
    match d.at? (here ++ [name]) with
    | none => .error .noEntry
    | some .directory => .error .isDirectory
    | some _ => if p.closed then .error .notDirectory else .ok (d.erase (here ++ [name]))

/-- A file or a link given another path, in place of the file or link that is there. What is wrong
with the source is found before the name of the target is looked at. -/
def renameFile (d : Disk) (source target : DiskPath) : Except DiskError Disk :=
  match d.approach source, d.approach target with
  | .error e, _ => .error e
  | _, .error e => .error e
  | .ok (_, none), _ | _, .ok (_, none) => .error .busy
  | .ok (here, some name), .ok (there, some other) =>
    let origin := here ++ [name]
    let destination := there ++ [other]
    match d.at? origin with
    | none => .error (if isTooLong name then .nameTooLong else .noEntry)
    | some .directory => .error .invalid
    | some entry =>
      if isTooLong other then .error .nameTooLong
      else if source.closed || target.closed then .error .notDirectory
      else if destination.isPrefixOf here then .error .notEmpty
      else if origin = destination then .ok d
      else
        match d.at? destination with
        | some .directory => .error .isDirectory
        | _ => .ok ((d.erase origin).put destination entry)

end BlobStore.Disk
