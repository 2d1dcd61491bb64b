import BlobStore.Disk.Path
import BlobStore.Error
import BlobStore.Meta
import BlobStore.OrderedMap
import BlobStore.Text.Utf8

/-!
# Disks

A disk is a tree of directories with files and symbolic links at its leaves. Every entry is kept
under its place, the list of names that leads to it from the top.

## Main definitions

* `Disk`, `DiskEntry`, `DiskFile`: the tree
* `DiskError`: why a call on a disk fails
* `Disk.walk`: where a path leads, links followed
* `Disk.stat`, `Disk.readDirectory`: what stands there
-/

namespace BlobStore

/-- The names that lead to an entry from the top. -/
abbrev Place := List FileName

/-- A file. Its number stays when it is renamed, and no two files of a disk share one. -/
structure DiskFile where
  number : Nat
  bytes : Bytes
  created : Time
  written : Time
deriving DecidableEq

/-- What stands at a place. -/
inductive DiskEntry
  | directory
  | file (file : DiskFile)
  | link (target : DiskPath)
deriving DecidableEq

/-- The entries of a disk, each under its place. -/
structure Disk where
  entries : OrderedMap Place DiskEntry := .empty
  /-- Where relative paths start. -/
  current : Place := []
  /-- Numbers no file yet, and nothing above it does. -/
  fresh : Nat := 0
deriving DecidableEq, Inhabited

/-- Why a call on a disk fails. -/
inductive DiskError
  | noEntry
  | exists
  | notDirectory
  | isDirectory
  | nameTooLong
  | notEmpty
  | tooManyLinks
  | busy
  | invalid
  | nulInName
deriving DecidableEq, Repr

namespace DiskError

/-- The kind of input or output error that a call fails with. -/
def kind : DiskError → IoErrorKind
  | .noEntry => .notFound
  | .exists => .alreadyExists
  | .notDirectory => .notADirectory
  | .isDirectory => .isADirectory
  | .nameTooLong => .invalidFilename
  | .notEmpty => .directoryNotEmpty
  | .tooManyLinks => .filesystemLoop
  | .busy => .resourceBusy
  | .invalid => .invalidInput
  | .nulInName => .invalidInput

/-- What the system says about an error. -/
def message : DiskError → String
  | .noEntry => "No such file or directory (os error 2)"
  | .exists => "File exists (os error 17)"
  | .notDirectory => "Not a directory (os error 20)"
  | .isDirectory => "Is a directory (os error 21)"
  | .nameTooLong => "File name too long (os error 36)"
  | .notEmpty => "Directory not empty (os error 39)"
  | .tooManyLinks => "Too many levels of symbolic links (os error 40)"
  | .busy => "Device or resource busy (os error 16)"
  | .invalid => "Invalid argument (os error 22)"
  | .nulInName => "file name contained an unexpected NUL byte"

/-- The error as one of input or output. -/
def toIo (e : DiskError) : IoError := ⟨e.kind, e.message⟩

/-- The error says that there is no file, because nothing is there or the path runs through
something that is no directory. -/
def isMissing (e : DiskError) : Bool := e = .noEntry || e = .notDirectory

end DiskError

namespace Disk

/-- The most bytes that a name can have. -/
def nameLimit : Nat := 255

/-- A name that no entry can have because of its length. -/
def isTooLong (name : FileName) : Bool := name.size > nameLimit

/-- The number of bytes that the text of a path must stay below. -/
def pathLimit : Nat := 4096

/-- The most links that are followed on one walk. -/
def linkLimit : Nat := 40

/-- What stands at a place; at the top there is always a directory. -/
def at? (d : Disk) (place : Place) : Option DiskEntry :=
  match place with
  | [] => some .directory
  | place => d.entries.get? place

/-! ## Walks -/

/-- What the last part of a path must be for a walk along it. -/
inductive Goal
  /-- An entry; a link there is followed. -/
  | entry
  /-- An entry, or a name that none has; a link there is followed. -/
  | name
deriving DecidableEq, Repr

/-- A walk from a directory along some parts. A link is handed to `jump` with the directory that it
stands in and the parts after it. -/
def stride (d : Disk) (jump : Place → DiskPath → List FileName → Except DiskError Place)
    (goal : Goal) : Place → List FileName → Except DiskError Place
  | here, [] => .ok here
  | here, part :: rest =>
    if part = .text "." then stride d jump goal here rest
    else if part = .text ".." then stride d jump goal here.dropLast rest
    else if isTooLong part then .error .nameTooLong
    else
      match d.at? (here ++ [part]) with
      | none => if rest.isEmpty && goal = .name then .ok (here ++ [part]) else .error .noEntry
      | some .directory => stride d jump goal (here ++ [part]) rest
      | some (.file _) => if rest.isEmpty then .ok (here ++ [part]) else .error .notDirectory
      | some (.link target) => jump here target rest

/-- A walk on which at most so many links are followed. -/
def strides (d : Disk) (goal : Goal) : Nat → Place → List FileName → Except DiskError Place
  | 0 => d.stride (fun _ _ _ => .error .tooManyLinks) goal
  | n + 1 =>
    d.stride
      (fun here target rest =>
        strides d goal n (if target.absolute then [] else here) (target.steps ++ rest))
      goal

/-- A path that no call accepts, whatever stands on the disk. -/
def refuse (p : DiskPath) : Option DiskError :=
  if p.pieces.any (·.hasNul) then some .nulInName
  else if p.isEmpty then some .noEntry
  else if p.size ≥ pathLimit then some .nameTooLong
  else none

/-- The place from which a path leads on. -/
def start (d : Disk) (p : DiskPath) : Place := if p.absolute then [] else d.current

/-- The place that a path leads to, links followed. -/
def reach (d : Disk) (goal : Goal) (p : DiskPath) : Except DiskError Place :=
  match refuse p with
  | some e => .error e
  | none => d.strides goal linkLimit (d.start p) p.steps

/-- The place of what a path names, links followed. -/
def walk (d : Disk) (p : DiskPath) : Except DiskError Place := d.reach .entry p

/-- The directory that the last step of a path starts from, and the name that the step leads to;
none, if it leads to no name but stays, goes up, or is not there. -/
def approach (d : Disk) (p : DiskPath) : Except DiskError (Place × Option FileName) :=
  match refuse p with
  | some e => .error e
  | none =>
    match d.strides .entry linkLimit (d.start p) (p.passes.dropLast ++ [.text "."]) with
    | .error e => .error e
    | .ok here =>
      match p.passes.getLast? with
      | none | some (.text ".") | some (.text "..") => .ok (here, none)
      | some name => .ok (here, some name)

/-- The directory that the last step of a path starts from, and the name that the step leads to,
which some entry could have. -/
def locate (d : Disk) (p : DiskPath) : Except DiskError (Place × Option FileName) :=
  match d.approach p with
  | .error e => .error e
  | .ok (here, name?) => if name?.any isTooLong then .error .nameTooLong else .ok (here, name?)

/-- What a path names, links followed. -/
def stat (d : Disk) (p : DiskPath) : Except DiskError DiskEntry :=
  match d.walk p with
  | .error e => .error e
  | .ok place =>
    match d.at? place with
    | some entry => .ok entry
    | none => .error .noEntry

/-- Whether a path names a directory. -/
def isDirectory (d : Disk) (p : DiskPath) : Bool :=
  match d.stat p with
  | .ok .directory => true
  | _ => false

/-- What stands below a place, each with the way to it from there. -/
def below (d : Disk) (place : Place) : List (Place × DiskEntry) :=
  d.entries.entries.filterMap fun (other, entry) =>
    if place.isPrefixOf other && place.length < other.length then
      some (other.drop place.length, entry)
    else none

/-- The names in a directory, each with what stands there. -/
def entriesIn (d : Disk) (place : Place) : List (FileName × DiskEntry) :=
  (d.below place).filterMap fun (way, entry) =>
    match way with
    | [name] => some (name, entry)
    | _ => none

/-- What is read of the directory that a path leads to, links followed: its names, each with what
stands there, where links are not followed. -/
def readDirectory (d : Disk) (p : DiskPath) : Except DiskError (List (FileName × DiskEntry)) :=
  match d.walk p with
  | .error e => .error e
  | .ok place =>
    match d.at? place with
    | some .directory => .ok (d.entriesIn place)
    | some _ => .error .notDirectory
    | none => .error .noEntry

/-- The file with a number, and its place. -/
def find? (d : Disk) (number : Nat) : Option (Place × DiskFile) :=
  d.entries.entries.findSome? fun (place, entry) =>
    match entry with
    | .file file => if file.number = number then some (place, file) else none
    | _ => none

end Disk

end BlobStore
