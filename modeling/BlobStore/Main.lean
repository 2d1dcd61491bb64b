import BlobStore.Command.Run
import Std.Time.DateTime.Timestamp

/-!
# The program

Reads the files that a command can reach into a disk of its own, runs the command there, and writes
back what the command changed.

## Main definitions

* `Program.load`, `Program.store`: files read and written back
* `main`: the program
-/

namespace BlobStore.Program

/-! ## Files -/

/-- The instant of a time stamp. -/
def timeOf (t : IO.FS.SystemTime) : Time := ⟨t.sec * 1000000000 + t.nsec.toNat⟩

/-- The disk with the file or the directory at a path. Links below a directory are left out. -/
partial def load (d : Disk) (path : String) : IO Disk := do
  let real ← try IO.FS.realPath path catch _ => return d
  let info ← real.metadata
  let place := DiskPath.ofText path
  match info.type with
  | .dir =>
    let entries ← real.readDir
    entries.foldlM (fun d entry => do
      match (← entry.path.symlinkMetadata).type with
      | .symlink => return d
      | _ => load d (path ++ "/" ++ entry.fileName)) (d.makeDirectories place).2
  | .file =>
    let bytes := (← IO.FS.readBinFile real).toList
    match (d.makeDirectories place.parent).2.writeFile place bytes (timeOf info.modified) with
    | .ok d => return d
    | .error _ => return d
  | _ => return d

/-- The path of a place from the top. -/
def textOf (place : Place) : String := "/" ++ "/".intercalate (place.map FileName.lossy)

/-- Writes back what is new or changed, and removes what is gone, the deepest first. -/
def store (before after : Disk) : IO Unit := do
  for (place, entry) in before.entries.entries.reverse do
    if (after.at? place).isNone then
      match entry with
      | .directory => IO.FS.removeDir (textOf place)
      | _ => IO.FS.removeFile (textOf place)
  for (place, entry) in after.entries.entries do
    if before.at? place ≠ some entry then
      match entry with
      | .directory => IO.FS.createDirAll (textOf place)
      | .file file => IO.FS.writeBinFile (textOf place) ⟨file.bytes.toArray⟩
      | .link _ => pure ()

/-! ## Commands -/

/-- The paths of the storage that a configuration describes: a directory, or the file of a database
and what can stand beside it. -/
def pathsOf (d : Disk) (config : String) : List String :=
  match ({ disk := d } : World).readText config with
  | .error _ => []
  | .ok text =>
    match (Config.ofText text).bind DirectorySettings.ofConfig with
    | .error _ => []
    | .ok settings =>
      match DatabaseName.ofText settings.path with
      | .error _ => [settings.path]
      | .ok name => settings.path :: ["", "-journal", "-wal"].map (name.path ++ ·)

/-- The disk with the directory that the last part of a path stands in. -/
def loadParent (d : Disk) (path : String) : IO Disk := do
  let parent := (DiskPath.ofText path).parent
  let real ← try IO.FS.realPath parent.text catch _ => return d
  match (← real.metadata).type with
  | .dir => return (d.makeDirectories parent).2
  | _ => return d

/-- The files that a command can reach. -/
def reach (invocation : Invocation) : IO Disk := do
  let current := toString (← IO.currentDir)
  let top : Disk := {}
  let disk := (top.makeDirectories (DiskPath.ofText current)).2
  let disk ← load { disk with current := (DiskPath.ofText current).parts } invocation.config
  let disk ← match invocation.command with
    | .put _ (some file) => load disk file
    | _ => pure disk
  (pathsOf disk invocation.config).foldlM (fun d path => do load (← loadParent d path) path) disk

/-- What comes from the standard input, if the command reads it. -/
def inputOf (command : Command) : IO Content := do
  match command with
  | .put _ none =>
    let bytes ← (← IO.getStdin).readBinToEnd
    return Content.ofReader [.chunk bytes.toList] none
  | _ => return Content.empty

/-- Runs a command on the files that it can reach, and writes what it shows. -/
def run (invocation : Invocation) : IO UInt32 := do
  let disk ← reach invocation
  let input ← inputOf invocation.command
  let now : Time := ⟨(← Std.Time.Timestamp.now).toNanosecondsSinceUnixEpoch.val⟩
  let (outcome, world) := invocation.run input now { disk }
  for event in outcome.events do
    if event.level = .warn ∨ event.level = .error then IO.eprintln event.message
  let out ← IO.getStdout
  out.write ⟨outcome.out.toArray⟩
  out.flush
  store disk world.disk
  match outcome.failure with
  | none => return 0
  | some failure =>
    IO.eprintln s!"Error: {failure.message}"
    return 1

/-- How the program is called. -/
def help : String :=
  "Usage: blobstore --config <CONFIG> <COMMAND>\n\nCommands: ls [PREFIX], get <KEY>, " ++
    "put <KEY> [FILE], mv <SOURCE> <DESTINATION>, rm <KEY>, stat <KEY>"

/-- The name and the version of the program. -/
def version : String := "blobstore 0.1.0"

end BlobStore.Program

open BlobStore in
/-- The program: its result is 0, or 1 after a failure, or 2 if the arguments ask for nothing. -/
def main (arguments : List String) : IO UInt32 := do
  match Invocation.ofArguments ("blobstore" :: arguments) with
  | .ok invocation => Program.run invocation
  | .error .displayHelp =>
    IO.println Program.help
    return 0
  | .error .displayVersion =>
    IO.println Program.version
    return 0
  | .error _ =>
    IO.eprintln Program.help
    return 2
