import BlobStore.Command.Run
import BlobStore.Content.Use
import BlobStore.Logged
import BlobStore.Polling
import BlobStore.Transaction
import BlobStore.Upload
import BlobStore.View

/-!
# Sessions

Several storages of one world, used side by side under names: their requests, their transactions,
and uploads that go on while other requests are answered. After every step the transactions that
wait are polled.

## Main definitions

* `Session`, `Member`: the state, and a storage in it
* `StorageSpec`, `Session.add`: how a member comes in
* `Question`, `Finding`: a request with what is made of a value, and what that shows
* `Session.ask`, `Session.begin`, `Session.transactionally`, `Session.command`: the steps
* `Session.settle`: the polling after a step
-/

namespace BlobStore

/-! ## Members -/

/-- What a member of a session is, beside a storage. -/
inductive Role
  | memory (number : Nat)
  | directory (root : String)
  | view (scope : Key)
  | logged (inner : String)
  | other
deriving DecidableEq, Repr

/-- A storage in a session. -/
structure Member where
  storage : Storage World
  role : Role := .other
  /-- Its values are files of the disk. -/
  onDisk : Bool := false

/-- How a storage is made. -/
inductive StorageSpec
  | memory
  | directory (root : String)
  | database (path : String)
  | view (inner : Member) (scope : Key)
  | logged (inner : Member)
  | faulty (faulty : Faulty)
  | configured (config : Config)

/-- Why a description gives no member. -/
inductive MakeError
  | storage (cause : StorageError)
  /-- The database at a path is not opened. -/
  | database (path : String) (cause : DatabaseError)

/-- The member that a description gives, and what is reported on the way. -/
def World.make (w : World) (now : Time) :
    StorageSpec → Except MakeError Member × List Event × World
  | .memory =>
    let (n, storage, w) := w.openMemory
    (.ok { storage, role := .memory n }, [], w)
  | .directory root =>
    let (storage, w) := w.openDirectory root
    (.ok { storage, role := .directory root, onDisk := true }, [], w)
  | .database path =>
    match w.openDatabase path now with
    | (.ok storage, w) => (.ok { storage }, [], w)
    | (.error e, w) => (.error (.database path e), [], w)
  | .view inner scope =>
    let member : Member :=
      { storage := inner.storage.view scope, role := .view scope, onDisk := inner.onDisk }
    (.ok member, [], w)
  | .logged inner =>
    let member : Member :=
      { storage := inner.storage.logged, role := .logged inner.storage.identifier,
        onDisk := inner.onDisk }
    (.ok member, [], w)
  | .faulty faulty =>
    let (storage, w) := w.openFaulty faulty
    (.ok { storage }, [], w)
  | .configured config =>
    let (reply, w) := World.registry.ofConfig config now w
    let onDisk := match config.backend with
      | .ok name => name == "fs"
      | .error _ => false
    let made := reply.result.map fun storage => { storage, onDisk }
    (made.mapError .storage, reply.events, w)

/-! ## Questions -/

/-- A request, with the use that is made of the value if it asks for one. -/
structure Question where
  request : Request
  use : ContentUse := .bytes

/-- What comes of a question. -/
inductive Finding
  | done
  | truth (b : Bool)
  | keys (keys : List Key)
  /-- The declared size of a value, and what its use showed. -/
  | value (size : Option Nat) (view : ContentView)
  | attributes (m : Meta)
deriving DecidableEq

/-- What an answer shows. -/
def Finding.of (use : ContentUse) : (r : Request) → r.Answer → Except StorageError Finding
  | .contains _, b => .ok (.truth b)
  | .list _, nested => .ok (.keys nested)
  | .save _ _, () | .move _ _, () | .delete _, () => .ok .done
  | .value _, content =>
    match content.view use with
    | .ok view => .ok (.value content.size view)
    | .error e => .error (.content e)
  | .metadata _, m => .ok (.attributes m)

/-- What answers requests over a world. -/
abbrev Answering := (r : Request) → Time → World → Reply r.Answer × World

/-- A question put to what answers requests. -/
def Question.put (q : Question) (answer : Answering) (now : Time) (w : World) :
    Reply Finding × World :=
  let (reply, w) := answer q.request now w
  let result := match reply.result with
    | .ok answer => Finding.of q.use q.request answer
    | .error e => .error e
  (⟨result, reply.events⟩, w)

/-- Questions put one after the other, up to the first error. -/
def Question.putAll (answer : Answering) :
    List Question → Time → World → Reply (List Finding) × World
  | [], _, w => (.ok [], w)
  | q :: rest, now, w =>
    match q.put answer now w with
    | (⟨.error e, events⟩, w) => (⟨.error e, events⟩, w)
    | (⟨.ok finding, events⟩, w) =>
      let (reply, w) := putAll answer rest now.next w
      (⟨reply.result.map (finding :: ·), events ++ reply.events⟩, w)

/-! ## Sessions -/

/-- A transaction that was begun and waits. -/
structure Begun where
  name : String
  member : Member
  pending : PendingTransaction

/-- The world with the names that were given to storages, transactions, uploads and attributes. -/
structure Session where
  world : World
  /-- The number of steps so far; every step takes a millisecond. -/
  steps : Nat := 0
  members : List (String × Member) := []
  transactions : List (String × Member × Transaction) := []
  /-- In the order in which they were begun. -/
  begun : List Begun := []
  uploads : List (String × Member × Upload) := []
  remembered : List (String × Meta) := []

namespace Session

/-- The time at which sessions start. -/
def epoch : Int := 1700000000000000000

/-- The time of the next step. -/
def now (session : Session) : Time := ⟨epoch + 1000000 * session.steps⟩

/-- A step on the world, at the time of the session. -/
def step {α : Type} (session : Session) (f : Time → World → α × World) : α × Session :=
  let (result, world) := f session.now session.world
  (result, { session with world, steps := session.steps + 1 })

/-- A new member under a name. -/
def add (session : Session) (name : String) (spec : StorageSpec) :
    Except MakeError Unit × List Event × Session :=
  let ((result, events), session) := session.step fun now w =>
    let (result, events, w) := w.make now spec
    ((result, events), w)
  match result with
  | .error e => (.error e, events, session)
  | .ok member =>
    let members := session.members.filter (·.1 != name) ++ [(name, member)]
    (.ok (), events, { session with members })

/-- A question put to a member. -/
def ask (session : Session) (member : Member) (q : Question) : Reply Finding × Session :=
  session.step (q.put member.storage.answer)

/-- A question put through an open transaction. -/
def askThrough (session : Session) (member : Member) (tx : Transaction) (q : Question) :
    Reply Finding × Session :=
  session.step (q.put (tx.through member.storage).answer)

/-- The attributes of a value, kept under a name. -/
def remember (session : Session) (member : Member) (key : Key) (name : String) :
    Reply Unit × Session :=
  let (reply, session) := session.step (member.storage.answer (.metadata key))
  match reply.result with
  | .error e => (⟨.error e, reply.events⟩, session)
  | .ok m =>
    let remembered := session.remembered.filter (·.1 != name) ++ [(name, m)]
    (⟨.ok (), reply.events⟩, { session with remembered })

/-- Whether two remembered values are known to be created at the same time. -/
def sameCreated (session : Session) (a b : String) : Bool :=
  let created := fun name => (session.remembered.lookup name).bind (·.time .created)
  (created a).isSome && created a == created b

/-- A command run on a member. -/
def command (session : Session) (member : Member) (command : Command) (input : Content) :
    Outcome × Session :=
  session.step (command.execute member.storage (fun path w => w.openFile path) input)

/-! ## Transactions in a session -/

/-- A transaction begun under a name, and polled once. -/
def begin (session : Session) (name : String) (member : Member) (keys : List Key) :
    Progress × List Event × Session :=
  let (pending, world) := member.storage.begin keys session.world
  match member.storage.poll pending world with
  | (none, events, world) =>
    (.waiting, events, { session with world, begun := session.begun ++ [⟨name, member, pending⟩] })
  | (some (.error e), events, world) => (.refused e, events, { session with world })
  | (some (.ok tx), events, world) =>
    let transactions := session.transactions ++ [(name, member, tx)]
    (.granted, events, { session with world, transactions })

/-- The waiting transactions of a name are withdrawn. -/
def withdraw (session : Session) (name : String) : Nat × Session :=
  let (gone, begun) := session.begun.partition (·.name == name)
  let world := gone.foldl (fun w b => b.member.storage.withdraw b.pending w) session.world
  (gone.length, { session with world, begun })

/-- A session without the open transaction of a name. -/
def forget (session : Session) (name : String) : Session :=
  { session with transactions := session.transactions.filter (·.1 != name) }

/-- A transaction committed or aborted. -/
def finish (session : Session) (name : String) (member : Member) (tx : Transaction)
    (ending : Ending) : Reply Unit × Session :=
  let (reply, world) := tx.finish member.storage ending session.world
  (reply, { session.forget name with world })

/-- A transaction dropped; its lock is given back in the background, if there is one. -/
def drop (session : Session) (name : String) (member : Member) (tx : Transaction)
    (background : Bool) : List Event × Session :=
  let (events, world) := tx.drop member.storage background session.world
  (events, { session.forget name with world })

/-- Questions put in a transaction of their own; nothing, if it would have to wait. -/
def transactionally (session : Session) (member : Member) (keys : List Key)
    (questions : List Question) : Option (Reply (List Finding)) × Session :=
  session.step fun now =>
    member.storage.transactionally keys fun tx =>
      Question.putAll (tx.through member.storage).answer questions now

/-- Polls the transactions that wait: those that are granted, or refused. -/
def settle (session : Session) :
    List (String × Except StorageError Unit) × List Event × Session :=
  let poll := fun (b : Begun) w => b.member.storage.poll b.pending w
  let (done, begun, events, world) := Polling.settle poll session.begun session.world
  let granted := done.filterMap fun (b, outcome) =>
    match outcome with
    | .ok tx => some (b.name, b.member, tx)
    | .error _ => none
  (done.map fun (b, outcome) => (b.name, outcome.map fun _ => ()), events,
    { session with world, begun, transactions := session.transactions ++ granted })

/-! ## Uploads in a session -/

/-- An upload after a step on it. -/
def keep (session : Session) (name : String) (member : Member) (u : Upload) : Session :=
  { session with uploads := session.uploads.filter (·.1 != name) ++ [(name, member, u)] }

/-- An upload started under a name. -/
def startUpload (session : Session) (name : String) (member : Member) (key : Key)
    (size : Option Nat) : Upload × List Event × Session :=
  let ((events, u), session) := session.step fun now w =>
    let (events, u, w) := Upload.start member.storage key size now w
    ((events, u), w)
  (u, events, session.keep name member u)

/-- One piece more for an upload. -/
def feedUpload (session : Session) (name : String) (member : Member) (u : Upload) (piece : Item) :
    Upload × List Event × Session :=
  let ((events, u), session) := session.step fun now w =>
    let (events, u, w) := u.feed member.storage piece now w
    ((events, u), w)
  (u, events, session.keep name member u)

/-- A session without the upload of a name. -/
def dropUpload (session : Session) (name : String) : Session :=
  { session with uploads := session.uploads.filter (·.1 != name) }

/-- An upload given up: whether it had not ended. -/
def cancelUpload (session : Session) (name : String) (member : Member) (u : Upload) :
    Bool × List Event × Session :=
  let (events, session) := session.step fun _ => u.cancel member.storage
  (!u.ended, events, session.dropUpload name)

/-- The end of an upload, and the result of its save. -/
def finishUpload (session : Session) (name : String) (member : Member) (u : Upload) :
    Reply Unit × Session :=
  let (reply, session) := session.step (u.finish member.storage)
  (reply, session.dropUpload name)

end Session

end BlobStore
