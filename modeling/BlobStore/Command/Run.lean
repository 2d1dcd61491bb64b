import BlobStore.Command
import BlobStore.Report
import BlobStore.World

/-!
# Running a command

A command is one request to a storage. What it writes is gathered; when it fails midway, what was
written before the failure stays written.

## Main definitions

* `CommandFailure`, `Outcome`: what comes of a command
* `Command.execute`: a command run on a storage
* `Invocation.run`: a command run on the storage of its configuration
-/

namespace BlobStore

/-- Why a command failed. -/
inductive CommandFailure
  | storage (cause : StorageError)
  /-- A failure of reading or writing, with what was being done. -/
  | io (context : String) (cause : IoError)
  /-- The file holds no configuration. -/
  | invalidConfig (path : String) (cause : ConfigError)
deriving DecidableEq, Repr

/-- The failure in words; what caused a failure of reading or writing is left to its own message. -/
def CommandFailure.message : CommandFailure → String
  | .storage cause => cause.message
  | .io context _ => context
  | .invalidConfig path _ => s!"invalid config {path}"

/-- What a command wrote, and why it failed if it did. -/
structure Outcome where
  out : Bytes := []
  failure : Option CommandFailure := none
  events : List Event := []
deriving DecidableEq

namespace Outcome

/-- The outcome of a reply, where `write` tells what an answer is written as. -/
def ofReply {α : Type} (reply : Reply α) (write : α → Bytes) : Outcome :=
  match reply.result with
  | .ok answer => { out := write answer, events := reply.events }
  | .error e => { failure := some (.storage e), events := reply.events }

/-- A content written chunk by chunk. -/
def ofContent (key : Key) (content : Content) : Outcome :=
  match chunksOf content.producer.items with
  | (chunks, none, _) => { out := chunks.flatten }
  | (chunks, some cause, _) =>
    { out := chunks.flatten, failure := some (.io s!"reading {key}" cause) }

end Outcome

/-- One key a line. -/
def keyLines (keys : List Key) : Bytes := keys.flatMap fun key => Utf8.encode (key.text ++ "\n")

variable {σ : Type}

/-- A command run on a storage, with a way to open files and with what comes from the standard
input. -/
def Command.execute (S : Storage σ) (openFile : String → σ → Except IoError OpenedFile)
    (input : Content) (now : Time) (command : Command) (s : σ) : Outcome × σ :=
  match command with
  | .ls scope =>
    let (reply, s) := S.answer (.list ((scope.map Key.parse).getD Key.root)) now s
    (.ofReply reply keyLines, s)
  | .get key =>
    let key := Key.parse key
    let (reply, s) := S.answer (.value key) now s
    match reply.result with
    | .error e => ({ failure := some (.storage e), events := reply.events }, s)
    | .ok content => ({ Outcome.ofContent key content with events := reply.events }, s)
  | .put key file =>
    let save := fun content =>
      let (reply, s) := S.answer (.save (Key.parse key) content) now s
      (Outcome.ofReply reply fun () => [], s)
    match file with
    | none => save input
    | some path =>
      match openFile path s with
      | .error cause => ({ failure := some (.io s!"cannot open {path}" cause) }, s)
      | .ok file =>
        match file.size with
        | .error cause => ({ failure := some (.io cause.message cause) }, s)
        | .ok size => save (Content.ofReader file.pieces (some size))
  | .mv source destination =>
    let (reply, s) := S.answer (.move (Key.parse source) (Key.parse destination)) now s
    (.ofReply reply fun () => [], s)
  | .rm key =>
    let (reply, s) := S.answer (.delete (Key.parse key)) now s
    (.ofReply reply fun () => [], s)
  | .stat key =>
    let key := Key.parse key
    let (reply, s) := S.answer (.metadata key) now s
    (.ofReply reply fun m => Utf8.encode ((Report.of key m).render ++ "\n"), s)

/-- A command run on the storage of its configuration, which is read first and closed afterwards. -/
def Invocation.run (invocation : Invocation) (input : Content) (now : Time) (w : World) :
    Outcome × World :=
  let path := invocation.config
  match w.readText path with
  | .error cause => ({ failure := some (.io s!"cannot read config {path}" cause) }, w)
  | .ok text =>
    match Config.ofText text with
    | .error cause => ({ failure := some (.invalidConfig path cause) }, w)
    | .ok config =>
      let (reply, w) := World.registry.ofConfig config now w
      match reply.result with
      | .error e => ({ failure := some (.storage e), events := reply.events }, w)
      | .ok storage =>
        let (outcome, w) :=
          invocation.command.execute storage (fun path w => w.openFile path) input now w
        ({ outcome with events := reply.events ++ outcome.events }, w.closed)

end BlobStore
