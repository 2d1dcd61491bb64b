import BlobStore.Command.Run
import BlobStore.Proofs.Content.Draining
import BlobStore.Proofs.Content.Reader
import BlobStore.Proofs.Memory

/-!
# What commands ask and write

A command asks its storage for one thing, and calls nothing else of it; what it writes is the answer
and nothing more. A command that fails has written nothing, unless it was writing a value whose
content failed: then all chunks before the failure are written. A file that is put cannot be asked
about before it was opened and its size was told, so a put may end before there is a request.

In a memory, a file that was put is got back byte for byte. On the way its bytes are cut into chunks
as they are read, joined when they are stored, and written in one chunk.

## Main definitions

* `Storage.noting`: a storage that notes what is called of it
* `Command.Asks`: the request of a command
* `Written`: what is written for an answer, and the failure that ends it
* `Command.Comes`: how a command comes out
* `Command.BreaksAfter`: a get that is answered a content that fails

## Main results

* `Command.comes`: how a command comes out on any storage
* `Command.Comes.out_of_failure`: what a command that fails has written
* `Command.put_then_get`, `World.put_then_get`: files that were put in a memory are got back
* `Command.faithful`: all of it
-/

namespace BlobStore

/-! ## Noting storages -/

/-- A call to a storage. -/
inductive StorageCall
  | answer (r : Request)
  /-- A step of a save that is taken in piece by piece. -/
  | intake
  | lock
deriving DecidableEq

section

variable {σ α : Type}

/-- A step that is noted. -/
def noting (call : StorageCall) (step : σ → α × σ) (p : σ × List StorageCall) :
    α × σ × List StorageCall :=
  let (value, s) := step p.1
  (value, s, p.2 ++ [call])

/-- An intake whose steps are noted. -/
def Intake.noting (i : Intake σ) : Intake (σ × List StorageCall) where
  start key size now := BlobStore.noting .intake (i.start key size now)
  append draft piece now := BlobStore.noting .intake (i.append draft piece now)
  finish key size draft now := BlobStore.noting .intake (i.finish key size draft now)
  fail key size draft cause now := BlobStore.noting .intake (i.fail key size draft cause now)
  abandon draft := BlobStore.noting .intake (i.abandon draft)

/-- Locks whose steps are noted. -/
def Locking.noting (l : Locking σ) : Locking (σ × List StorageCall) where
  make keys := BlobStore.noting .lock (l.make keys)
  request lock := BlobStore.noting .lock (l.request lock)
  poll t p :=
    let (progress, events, s) := l.poll t p.1
    (progress, events, s, p.2 ++ [.lock])
  cancel t p := (l.cancel t p.1, p.2 ++ [.lock])
  release lock := BlobStore.noting .lock (l.release lock)
  discard lock p := (l.discard lock p.1, p.2 ++ [.lock])

/-- A storage that notes what is called of it, whatever it is. -/
def Storage.noting (S : Storage σ) : Storage (σ × List StorageCall) where
  identifier := S.identifier
  answer r now := BlobStore.noting (.answer r) (S.answer r now)
  intake := S.intake.noting
  locking := S.locking.noting

end

/-! ## What is asked -/

section

variable {σ : Type} {S : Storage σ} {openFile : String → σ → Except IoError OpenedFile}
  {input : Content} {now : Time} {s : σ}

/-- The request of a command. The content of a put is what was opened, with its size. -/
inductive Command.Asks (openFile : String → σ → Except IoError OpenedFile) (input : Content)
    (s : σ) : Command → Request → Prop
  | everything : Asks openFile input s (.ls none) (.list Key.root)
  | ls (scope : String) : Asks openFile input s (.ls (some scope)) (.list (Key.parse scope))
  | get (key : String) : Asks openFile input s (.get key) (.value (Key.parse key))
  | putInput (key : String) : Asks openFile input s (.put key none) (.save (Key.parse key) input)
  | putFile (key : String) {path : String} {file : OpenedFile} {size : ℕ} :
    openFile path s = .ok file → file.size = .ok size →
    Asks openFile input s (.put key (some path))
      (.save (Key.parse key) (Content.ofReader file.pieces (some size)))
  | mv (source destination : String) :
    Asks openFile input s (.mv source destination)
      (.move (Key.parse source) (Key.parse destination))
  | rm (key : String) : Asks openFile input s (.rm key) (.delete (Key.parse key))
  | stat (key : String) : Asks openFile input s (.stat key) (.metadata (Key.parse key))

/-! ## What is written -/

/-- A text on a line of its own. -/
def line (text : String) : Bytes := Utf8.encode text ++ [10]

theorem encode_newline (text : String) : Utf8.encode (text ++ "\n") = line text := by
  unfold line Utf8.encode
  rw [String.toList_append, List.flatMap_append]
  rfl

/-- What is written for the answer to a request, and the failure that ends it. Nothing is written
for an error; of a value the chunks are written, up to its end or up to a failure of its content. -/
inductive Written : (r : Request) → Except StorageError r.Answer → Bytes →
    Option CommandFailure → Prop
  | refused (r : Request) (e : StorageError) : Written r (.error e) [] (some (.storage e))
  | listed (scope : Key) (keys : List Key) :
    Written (.list scope) (.ok keys) (keys.flatMap fun key => line key.text) none
  | whole (key : Key) {content : Content} {chunks : List Bytes} :
    content.producer.items = chunks.map Item.chunk →
    Written (.value key) (.ok content) chunks.flatten none
  | broken (key : Key) {content : Content} {chunks : List Bytes} {cause : IoError}
      {left : List Item} :
    content.producer.items = chunks.map Item.chunk ++ .failure cause :: left →
    Written (.value key) (.ok content) chunks.flatten (some (.io s!"reading {key}" cause))
  | saved (key : Key) (content : Content) : Written (.save key content) (.ok ()) [] none
  | moved (source destination : Key) : Written (.move source destination) (.ok ()) [] none
  | deleted (key : Key) : Written (.delete key) (.ok ()) [] none
  | described (key : Key) (m : Meta) :
    Written (.metadata key) (.ok m) (line (Report.of key m).render) none

/-- The outcome of a reply that is written at once. -/
theorem Written.ofReply {r : Request} {write : r.Answer → Bytes}
    (h : ∀ answer, Written r (.ok answer) (write answer) none) (reply : Reply r.Answer) :
    Written r reply.result (Outcome.ofReply reply write).out
      (Outcome.ofReply reply write).failure := by
  unfold Outcome.ofReply
  cases reply.result with
  | error e => exact Written.refused r e
  | ok answer => exact h answer

theorem Outcome.events_ofReply {α : Type} (reply : Reply α) (write : α → Bytes) :
    (Outcome.ofReply reply write).events = reply.events := by
  unfold ofReply
  cases reply.result <;> rfl

/-- A content is written chunk by chunk. -/
theorem Written.ofContent (key : Key) (content : Content) :
    Written (.value key) (.ok content) (Outcome.ofContent key content).out
      (Outcome.ofContent key content).failure := by
  unfold Outcome.ofContent
  obtain ⟨chunks, h⟩ | ⟨chunks, cause, left, h⟩ := chunks_or_failure content.producer.items
  · rw [h, chunksOf_map_chunk]
    exact Written.whole key h
  · rw [h, chunksOf_map_chunk_append_failure]
    exact Written.broken key h

/-! ## How commands come out -/

/-- How a command comes out: what is called of the storage, what is written, and the state
afterwards. -/
inductive Command.Comes (S : Storage σ) (openFile : String → σ → Except IoError OpenedFile)
    (input : Content) (now : Time) (s : σ) :
    Command → List StorageCall → Outcome × σ → Prop
  /-- One request, and what comes of its reply. -/
  | asked {command : Command} {r : Request} {outcome : Outcome} :
    Asks openFile input s command r →
    Written r (S.answer r now s).1.result outcome.out outcome.failure →
    outcome.events = (S.answer r now s).1.events →
    Comes S openFile input now s command [.answer r] (outcome, (S.answer r now s).2)
  /-- The file cannot be opened. -/
  | unopened (key : String) {path : String} {cause : IoError} :
    openFile path s = .error cause →
    Comes S openFile input now s (.put key (some path)) []
      ({ failure := some (.io s!"cannot open {path}" cause) }, s)
  /-- The file is open, but its size cannot be told. -/
  | unsized (key : String) {path : String} {file : OpenedFile} {cause : IoError} :
    openFile path s = .ok file → file.size = .error cause →
    Comes S openFile input now s (.put key (some path)) []
      ({ failure := some (.io cause.message cause) }, s)

/-- The outcome of a reply with a content. -/
def Outcome.ofValue (key : Key) (reply : Reply Content) : Outcome :=
  match reply.result with
  | .error e => { failure := some (.storage e), events := reply.events }
  | .ok content => { ofContent key content with events := reply.events }

theorem Written.ofValue (key : Key) (reply : Reply Content) :
    Written (.value key) reply.result (Outcome.ofValue key reply).out
      (Outcome.ofValue key reply).failure := by
  unfold Outcome.ofValue
  cases reply.result with
  | error e => exact Written.refused _ e
  | ok content => exact Written.ofContent key content

theorem Outcome.events_ofValue (key : Key) (reply : Reply Content) :
    (ofValue key reply).events = reply.events := by
  unfold ofValue
  cases reply.result <;> rfl

namespace Command

theorem execute_get (S : Storage σ) (key : String) (s : σ) :
    (get key).execute S openFile input now s =
      (Outcome.ofValue (Key.parse key) (S.answer (.value (Key.parse key)) now s).1,
        (S.answer (.value (Key.parse key)) now s).2) := by
  simp only [execute, Outcome.ofValue]
  cases (S.answer (.value (Key.parse key)) now s).1.result <;> rfl

theorem execute_put_of_opened {path : String} {file : OpenedFile} {size : ℕ}
    (hopen : openFile path s = .ok file) (hsize : file.size = .ok size) (S : Storage σ)
    (key : String) : (put key (some path)).execute S openFile input now s =
      let request := Request.save (Key.parse key) (Content.ofReader file.pieces (some size))
      (Outcome.ofReply (S.answer request now s).1 fun () => [], (S.answer request now s).2) := by
  simp only [execute, hopen, hsize]

theorem execute_put_of_unopened {path : String} {cause : IoError}
    (hopen : openFile path s = .error cause) (S : Storage σ) (key : String) :
    (put key (some path)).execute S openFile input now s =
      ({ failure := some (.io s!"cannot open {path}" cause) }, s) := by
  simp only [execute, hopen]

theorem execute_put_of_unsized {path : String} {file : OpenedFile} {cause : IoError}
    (hopen : openFile path s = .ok file) (hsize : file.size = .error cause) (S : Storage σ)
    (key : String) : (put key (some path)).execute S openFile input now s =
      ({ failure := some (.io cause.message cause) }, s) := by
  simp only [execute, hopen, hsize]

/-- However a storage answers, and whatever stands at its calls already: a command comes out as it
should, and a storage that notes what is called of it answers the same. -/
theorem comes (S : Storage σ) (openFile : String → σ → Except IoError OpenedFile)
    (input : Content) (now : Time) (command : Command) (s : σ) (calls : List StorageCall) :
    ∃ called, Comes S openFile input now s command called
        (command.execute S openFile input now s) ∧
      command.execute S.noting (fun path p => openFile path p.1) input now (s, calls) =
        ((command.execute S openFile input now s).1,
          (command.execute S openFile input now s).2, calls ++ called) := by
  -- what is noted changes neither what is opened nor what is answered, so both runs go one way
  cases command with
  | ls scope =>
    have hasks : Asks openFile input s (ls scope)
        (.list ((scope.map Key.parse).getD Key.root)) := by
      cases scope with
      | none => exact Asks.everything
      | some scope => exact Asks.ls scope
    refine ⟨_, .asked hasks (.ofReply (fun keys => ?_) _) (Outcome.events_ofReply _ _), rfl⟩
    have hlines := Written.listed ((scope.map Key.parse).getD Key.root) keys
    simp only [← encode_newline] at hlines
    exact hlines
  | get key =>
    rw [execute_get, execute_get]
    exact ⟨_, .asked (.get key) (.ofValue _ _) (Outcome.events_ofValue _ _), rfl⟩
  | put key file =>
    cases file with
    | none =>
      exact ⟨_, .asked (.putInput key) (.ofReply (fun _ => .saved _ _) _)
        (Outcome.events_ofReply _ _), rfl⟩
    | some path =>
      cases hopen : openFile path s with
      | error cause =>
        rw [execute_put_of_unopened hopen, execute_put_of_unopened (s := (s, calls)) hopen]
        exact ⟨[], .unopened key hopen, by rw [List.append_nil]⟩
      | ok file =>
        cases hsize : file.size with
        | error cause =>
          rw [execute_put_of_unsized hopen hsize,
            execute_put_of_unsized (s := (s, calls)) hopen hsize]
          exact ⟨[], .unsized key hopen hsize, by rw [List.append_nil]⟩
        | ok size =>
          rw [execute_put_of_opened hopen hsize,
            execute_put_of_opened (s := (s, calls)) hopen hsize]
          exact ⟨_, .asked (.putFile key hopen hsize) (.ofReply (fun _ => .saved _ _) _)
            (Outcome.events_ofReply _ _), rfl⟩
  | mv source destination =>
    exact ⟨_, .asked (.mv source destination) (.ofReply (fun _ => .moved _ _) _)
      (Outcome.events_ofReply _ _), rfl⟩
  | rm key =>
    exact ⟨_, .asked (.rm key) (.ofReply (fun _ => .deleted _) _)
      (Outcome.events_ofReply _ _), rfl⟩
  | stat key =>
    refine ⟨_, .asked (.stat key) (.ofReply (fun m => ?_) _) (Outcome.events_ofReply _ _), rfl⟩
    rw [encode_newline]
    exact Written.described (Key.parse key) m

/-- The command is a get, and the content that answers it fails behind chunks of these bytes. -/
def BreaksAfter (S : Storage σ) (now : Time) (s : σ) (command : Command) (bytes : Bytes) : Prop :=
  ∃ (key : String) (content : Content) (chunks : List Bytes) (cause : IoError) (left : List Item),
    command = .get key ∧ (S.answer (.value (Key.parse key)) now s).1.result = .ok content ∧
      content.producer.items = chunks.map Item.chunk ++ .failure cause :: left ∧
      chunks.flatten = bytes

/-- A command that fails has written nothing, unless it was writing a value whose content failed:
then the chunks before the failure are written. -/
theorem Comes.out_of_failure {command : Command} {called : List StorageCall} {outcome : Outcome}
    {after : σ} (h : Comes S openFile input now s command called (outcome, after))
    (hfailure : outcome.failure ≠ none) :
    outcome.out = [] ∨ BreaksAfter S now s command outcome.out := by
  cases h with
  | unopened key hopen => exact Or.inl rfl
  | unsized key hopen hsize => exact Or.inl rfl
  | asked hasks hwritten hevents =>
    obtain ⟨out, failure, events⟩ := outcome
    -- the parts of an outcome become variables, or the cases would compute whole reports
    dsimp only at hwritten
    generalize hresult : (S.answer _ now s).1.result = result at hwritten
    cases hwritten with
    | refused r e => exact Or.inl rfl
    | @broken _ content chunks cause left hitems =>
      right
      cases hasks with
      | get key =>
        exact ⟨key, content, chunks, cause, left, rfl, hresult, hitems, rfl⟩
    | listed | whole | saved | moved | deleted | described => exact absurd rfl hfailure

end Command

end

/-! ## A file put in a memory -/

section

variable {ω : Type} {part : Part ω (Memory × LockTable)} {key : Key} {content : Content}
  {bytes : Bytes} {w : ω}

/-- A content that is saved is stored under its key. -/
theorem Memory.answer_save (h : content.drain = .ok bytes)
    (hpart : ∀ p w, part.get (part.set p w) = p) (key : Key) (now : Time) (w : ω) :
    ((backend.locked.within part).answer (.save key content) now w).1 = .ok () ∧
      (part.get ((backend.locked.within part).answer (.save key content) now w).2).1.contents key =
        some bytes := by
  have hreply : (answer (.save key content) now (part.get w).1).1 = .ok () := by
    simp only [answer, h]
  have hcontents := contents_answer (.save key content) now (part.get w).1
  simp only [Request.effect, h] at hcontents
  refine ⟨hreply, ?_⟩
  show (part.get (part.set ((answer (.save key content) now (part.get w).1).2, _) w)).1.contents
    key = _
  rw [hpart, hcontents, Function.update_self]

/-- What is stored is answered in one piece. -/
theorem Memory.answer_value (h : (part.get w).1.contents key = some bytes) (now : Time) :
    ((backend.locked.within part).answer (.value key) now w).1 = .ok (Content.ofBytes bytes) := by
  obtain ⟨v, hv, hbytes⟩ := Option.map_eq_some_iff.mp h
  show (answer (.value key) now (part.get w).1).1 = _
  simp only [answer, hv, hbytes]

variable {path : String} {file : OpenedFile} {size : ℕ} {pieces : List Bytes}

/-- A file put in a memory is got back byte for byte, however its bytes come from its reads,
whatever size it says, and whatever was stored under the key before. -/
theorem Command.put_then_get (openFile : String → ω → Except IoError OpenedFile)
    (hpart : ∀ p w, part.get (part.set p w) = p) (hopen : openFile path w = .ok file)
    (hsize : file.size = .ok size) (hpieces : supply file.pieces = (pieces, none)) (key : String)
    (input : Content) (now later : Time) :
    let S := Memory.backend.locked.within part
    let stored := (put key (some path)).execute S openFile input now w
    stored.1 = {} ∧
      ((get key).execute S openFile input later stored.2).1 = { out := pieces.flatten } := by
  intro S stored
  have hdrain : (Content.ofReader file.pieces (some size)).drain = .ok pieces.flatten := by
    rw [Content.drain_ofReader_eq, hpieces]
  obtain ⟨hreply, hkept⟩ := Memory.answer_save hdrain hpart (Key.parse key) now w
  have hstored : stored = _ := execute_put_of_opened hopen hsize S key
  constructor
  · rw [hstored]
    exact congrArg (fun reply => Outcome.ofReply reply fun () => []) hreply
  · rw [hstored, execute_get, Memory.answer_value hkept]
    show ({ out := [pieces.flatten].flatten } : Outcome) = _
    rw [List.flatten_singleton]

end

namespace World

/-- A memory of a world and its lock table are there as they were put there. -/
theorem get_set_memory (n : ℕ) (p : Memory × LockTable) (w : World) :
    ((memoryPart n).both (tablePart n)).get (((memoryPart n).both (tablePart n)).set p w) = p := by
  simp [Part.both, memoryPart, tablePart]

theorem supply_singleton (bytes : Bytes) :
    ∃ pieces, supply [.chunk bytes] = (pieces, none) ∧ pieces.flatten = bytes := by
  cases bytes with
  | nil => exact ⟨[], rfl, rfl⟩
  | cons byte bytes => exact ⟨[byte :: bytes], rfl, List.flatten_singleton⟩

/-- A file of the disk, of any length, put in a new memory. -/
theorem put_then_get {w : World} {path : String} {file : DiskFile}
    (hfile : w.disk.stat (DiskPath.ofText path) = .ok (.file file)) (key : String)
    (input : Content) (now later : Time) :
    let (_, S, opened) := w.openMemory
    let stored := (Command.put key (some path)).execute S (fun path w => w.openFile path) input now
      opened
    stored.1 = {} ∧
      ((Command.get key).execute S (fun path w => w.openFile path) input later stored.2).1 =
        { out := file.bytes } := by
  have hopen : w.number.2.openFile path =
      .ok ⟨.ok file.bytes.length, [.chunk file.bytes]⟩ := by
    unfold openFile number
    rw [hfile]
  obtain ⟨pieces, hpieces, hbytes⟩ := supply_singleton file.bytes
  have hround := Command.put_then_get (fun path w => openFile w path)
    (get_set_memory w.fresh) hopen rfl hpieces key input now later
  rw [hbytes] at hround
  exact hround

end World

/-- **Commands are faithful.** On any storage, a command calls nothing but its one request, on the
keys that its arguments spell, and nothing at all if there is no file to put; it writes what the
answer says, and on a failure nothing but the chunks of a value before the failure of its content.
In a memory, a file that was put is got back byte for byte. -/
theorem Command.faithful :
    (∀ (σ : Type) (S : Storage σ) (openFile : String → σ → Except IoError OpenedFile)
        (input : Content) (now : Time) (command : Command) (s : σ),
      let (outcome, after) := command.execute S openFile input now s
      (∃ called, Comes S openFile input now s command called (outcome, after) ∧
        command.execute S.noting (fun path p => openFile path p.1) input now (s, []) =
          (outcome, after, called)) ∧
      (outcome.failure ≠ none →
        outcome.out = [] ∨ BreaksAfter S now s command outcome.out)) ∧
    ∀ (ω : Type) (part : Part ω (Memory × LockTable))
        (openFile : String → ω → Except IoError OpenedFile) (w : ω) (path : String)
        (file : OpenedFile) (size : ℕ) (pieces : List Bytes) (key : String) (input : Content)
        (now later : Time),
      (∀ p w, part.get (part.set p w) = p) → openFile path w = .ok file → file.size = .ok size →
      supply file.pieces = (pieces, none) →
      let S := Memory.backend.locked.within part
      let stored := (put key (some path)).execute S openFile input now w
      stored.1 = {} ∧
        ((get key).execute S openFile input later stored.2).1 = { out := pieces.flatten } := by
  constructor
  · intro σ S openFile input now command s
    obtain ⟨called, hcomes, hcalled⟩ := comes S openFile input now command s []
    exact ⟨⟨called, hcomes, hcalled⟩, hcomes.out_of_failure⟩
  · intro ω part openFile w path file size pieces key input now later hpart hopen hsize hpieces
    exact put_then_get openFile hpart hopen hsize hpieces key input now later

/-- A world whose disk holds one file. -/
def inputWorld : World :=
  let file : DiskFile := ⟨0, [0x66, 0x00, 0xFF], ⟨0⟩, ⟨0⟩⟩
  { disk := { entries := ⟨[([.text "input.txt"], .file file)]⟩, fresh := 1 } }

theorem Command.faithful_input :
    let part := (World.memoryPart 0).both (World.tablePart 0)
    let S := Memory.backend.locked.within part
    let openFile := fun path (w : World) => w.openFile path
    let file : OpenedFile := ⟨.ok 3, [.chunk [0x66, 0x00, 0xFF]]⟩
    (∀ p w, part.get (part.set p w) = p) ∧ openFile "/input.txt" inputWorld = .ok file ∧
      supply file.pieces = ([[0x66, 0x00, 0xFF]], none) ∧
      ((get "docs/input").execute S openFile Content.empty ⟨0⟩
        ((put "docs/input" (some "/input.txt")).execute S openFile Content.empty ⟨0⟩
          inputWorld).2).1.out = [0x66, 0x00, 0xFF] := by
  intro part S openFile file
  have hpart : ∀ p w, part.get (part.set p w) = p := World.get_set_memory 0
  have hstat : inputWorld.disk.stat (DiskPath.ofText "/input.txt") =
      .ok (.file ⟨0, [0x66, 0x00, 0xFF], ⟨0⟩, ⟨0⟩⟩) := by decide +kernel
  have hopen : openFile "/input.txt" inputWorld = .ok file := by
    show inputWorld.openFile "/input.txt" = _
    unfold World.openFile
    rw [hstat]
    rfl
  obtain ⟨-, hround⟩ := Command.faithful
  obtain ⟨-, hread⟩ := hround World part openFile inputWorld "/input.txt" file 3
    [[0x66, 0x00, 0xFF]] "docs/input" Content.empty ⟨0⟩ ⟨0⟩ hpart hopen rfl rfl
  exact ⟨hpart, hopen, rfl, congrArg Outcome.out hread⟩

end BlobStore
