import BlobStore.Lock.Table
import BlobStore.Request

/-!
# Storages

A storage answers requests and hands out locks over sets of keys. It is given by functions on a
state; the current time is an argument of every request. A backend is a storage without locks; with
a lock table beside its state it becomes a storage.

A save can also be taken in piece by piece while other requests are answered. What has arrived of it
is its draft, and the save happens when the content is complete.

Several storages can share a state: a storage over a part of a state is a storage over the whole.

## Main definitions

* `Draft`, `Intake`: saves taken in piece by piece
* `Backend`: what answers requests
* `Locking`: what hands out locks
* `Storage`: both over one state
* `Backend.locked`: a backend with a lock table of its own
* `Storage.within`: a storage over a part of a larger state
-/

namespace BlobStore

/-- A file that holds what has arrived of a save. -/
structure DraftFile where
  /-- Tells the drafts of one backend apart. -/
  serial : Nat
  /-- The number of the file. -/
  number : Nat
deriving DecidableEq, Repr

/-- What has arrived of a save. -/
structure Draft where
  bytes : Bytes := []
  /-- The file that holds it, if a file does. -/
  file : Option DraftFile := none
deriving DecidableEq, Repr

/-- How saves are taken in piece by piece over a state. The key and the declared size belong to the
request, and are given at every step that can end it. -/
structure Intake (σ : Type) where
  /-- A new save, unless it fails before its content is asked for the first piece. -/
  start : Key → Option Nat → Time → σ → Reply Draft × σ
  /-- One piece more. -/
  append : Draft → Bytes → Time → σ → Draft × σ
  /-- The end of the content. -/
  finish : Key → Option Nat → Draft → Time → σ → Reply Unit × σ
  /-- The failure of the content. -/
  fail : Key → Option Nat → Draft → IoError → Time → σ → Reply Unit × σ
  /-- The save given up, with what is reported on it. -/
  abandon : Draft → σ → List Event × σ

/-- What answers requests over a state. -/
structure Backend (σ : Type) where
  /-- What the backend is called in reports. -/
  identifier : String
  answer : (r : Request) → Time → σ → Reply r.Answer × σ
  intake : Intake σ

/-- Saves that are answered at their ends, and nothing is stored before. -/
def Intake.gathering {σ : Type} (answer : (r : Request) → Time → σ → Reply r.Answer × σ) :
    Intake σ where
  start _ _ _ s := (.ok {}, s)
  append draft piece _ s := ({ draft with bytes := draft.bytes ++ piece }, s)
  finish key size draft now s := answer (.save key (.ofStream [.chunk draft.bytes] size)) now s
  fail key size draft cause now s :=
    answer (.save key (.ofStream [.chunk draft.bytes, .failure cause] size)) now s
  abandon _ s := ([], s)

/-- How far a request for a lock has come. -/
inductive Progress
  | waiting
  | granted
  | refused (cause : StorageError)
deriving DecidableEq, Repr

/-- The outcome of a request for a lock, once it has one. -/
def Progress.outcome? : Progress → Option (Except StorageError Unit)
  | .waiting => none
  | .granted => some (.ok ())
  | .refused cause => some (.error cause)

/-- What hands out locks over a state. -/
structure Locking (σ : Type) where
  /-- A new lock over a set of keys. -/
  make : List Key → σ → LockId × σ
  /-- A new request for a lock. -/
  request : LockId → σ → TicketId × σ
  /-- A request carried on as far as possible. -/
  poll : TicketId → σ → Progress × List Event × σ
  /-- A request given up. -/
  cancel : TicketId → σ → σ
  /-- A granted lock given back. -/
  release : LockId → σ → Reply Unit × σ
  /-- A lock dropped, whether it is held or not. -/
  discard : LockId → σ → σ

/-- A backend with locks over its keys. -/
structure Storage (σ : Type) extends Backend σ where
  locking : Locking σ

/-! ## Locks of a lock table -/

namespace LockTable

/-- What lock tables report. -/
def report (message : String) : Event := ⟨.trace, .lock, message, []⟩

/-- The keys of the lock that a request is for. -/
def wanted (table : LockTable) (t : TicketId) : List Key :=
  match table.tickets.get? t with
  | some ticket => table.keysOf ticket.lock
  | none => []

/-- The locks of a lock table; grants and releases are reported. -/
def locking : Locking LockTable where
  make keys table := table.make keys
  request lock table := table.request lock
  poll t table :=
    match table.poll t with
    | (true, after) =>
      (.granted, [report s!"lock acquired: [{Key.describe (table.wanted t)}]"], after)
    | (false, after) => (.waiting, [], after)
  cancel t table := table.cancel t
  release lock table :=
    match table.release lock with
    | (.ok (), after) =>
      (⟨.ok (), [report s!"lock released: [{Key.describe (table.keysOf lock)}]"]⟩, after)
    | (.error e, after) => (.error (.lock e), after)
  discard lock table := table.discard lock

end LockTable

/-! ## Parts of a state -/

/-- A part of a state, by how it is read and how it is replaced. -/
structure Part (ω σ : Type) where
  get : ω → σ
  set : σ → ω → ω

namespace Part

variable {ω σ τ : Type}

/-- The first component of a pair. -/
def first : Part (σ × τ) σ := ⟨Prod.fst, fun s p => (s, p.2)⟩

/-- The second component of a pair. -/
def second : Part (σ × τ) τ := ⟨Prod.snd, fun t p => (p.1, t)⟩

/-- Two parts side by side. -/
def both (a : Part ω σ) (b : Part ω τ) : Part ω (σ × τ) where
  get w := (a.get w, b.get w)
  set p w := b.set p.2 (a.set p.1 w)

/-- A step on a part, as a step on the whole. -/
def step {α : Type} (part : Part ω σ) (f : σ → α × σ) (w : ω) : α × ω :=
  let (value, s) := f (part.get w)
  (value, part.set s w)

end Part

section

variable {ω σ : Type}

/-- The intake of a part, on the whole. -/
def Intake.within (part : Part ω σ) (i : Intake σ) : Intake ω where
  start key size now := part.step (i.start key size now)
  append draft piece now := part.step (i.append draft piece now)
  finish key size draft now := part.step (i.finish key size draft now)
  fail key size draft cause now := part.step (i.fail key size draft cause now)
  abandon draft := part.step (i.abandon draft)

/-- The backend of a part, on the whole. -/
def Backend.within (part : Part ω σ) (b : Backend σ) : Backend ω where
  identifier := b.identifier
  answer r time := part.step (b.answer r time)
  intake := b.intake.within part

/-- The locks of a part, on the whole. -/
def Locking.within (part : Part ω σ) (l : Locking σ) : Locking ω where
  make keys := part.step (l.make keys)
  request lock := part.step (l.request lock)
  poll t w :=
    let (progress, events, s) := l.poll t (part.get w)
    (progress, events, part.set s w)
  cancel t w := part.set (l.cancel t (part.get w)) w
  release lock := part.step (l.release lock)
  discard lock w := part.set (l.discard lock (part.get w)) w

/-- The storage of a part, on the whole. -/
def Storage.within (part : Part ω σ) (s : Storage σ) : Storage ω where
  toBackend := s.toBackend.within part
  locking := s.locking.within part

/-- A backend with a lock table beside its state. -/
def Backend.locked (b : Backend σ) : Storage (σ × LockTable) where
  toBackend := b.within Part.first
  locking := LockTable.locking.within Part.second

end

end BlobStore
