import BlobStore.Storage

/-!
# Transactions

A transaction holds the lock over a fixed set of keys, and requests through it may name no other
keys. What it asks takes effect at once and is not taken back; the lock keeps other transactions
over any of its keys out until the transaction ends. However it ends, its lock is given back once
and then dropped.

## Main definitions

* `Transaction`, `PendingTransaction`: a transaction that is open, and one that waits for its lock
* `Storage.begin`, `Storage.poll`, `Storage.withdraw`: the way to an open transaction
* `Transaction.answer`: a request through a transaction
* `Transaction.through`: a storage as it is seen through a transaction
* `Transaction.finish`, `Transaction.drop`: the ends of a transaction
* `Transaction.giveBack`: what a dropped transaction leaves to the background
* `Storage.transactionally`: a body run in a transaction
-/

namespace BlobStore

variable {σ : Type}

/-- A transaction that waits for its lock. -/
structure PendingTransaction where
  keys : List Key
  lock : LockId
  ticket : TicketId
deriving DecidableEq, Repr

/-- An open transaction. -/
structure Transaction where
  keys : List Key
  lock : LockId
deriving DecidableEq, Repr

/-- How a transaction is ended by its owner. -/
inductive Ending
  | committed
  | aborted
deriving DecidableEq, Repr

/-- The ending in reports. -/
def Ending.name : Ending → String
  | .committed => "committed"
  | .aborted => "aborted"

namespace Transaction

/-- Whether a key belongs to a transaction. -/
def contains (tx : Transaction) (key : Key) : Bool := decide (key ∈ tx.keys)

/-- An open transaction as it is shown to a developer. -/
def debug (tx : Transaction) : String := s!"Transaction([{Key.describe tx.keys}], open=true)"

/-- What transactions report. -/
def report (level : Level) (message : String) : Event := ⟨level, .transaction, message, []⟩

/-! ## Requests -/

/-- The first key of a request that does not belong to a transaction; what a listing would show
never does. -/
def outside? (tx : Transaction) : Request → Option Key
  | .list scope => some scope
  | .move source destination => [source, destination].find? (!tx.contains ·)
  | .contains key | .save key _ | .value key | .delete key | .metadata key =>
    if tx.contains key then none else some key

/-- The answer to a request through a transaction. -/
def answer (tx : Transaction) (S : Storage σ) (r : Request) (now : Time) (s : σ) :
    Reply r.Answer × σ :=
  match tx.outside? r with
  | some key => (.error (.outsideTransaction key), s)
  | none => S.answer r now s

/-- A storage as it is seen through a transaction. A save under another key is refused before its
content is asked for the first piece. -/
def through (tx : Transaction) (S : Storage σ) : Backend σ where
  identifier := S.identifier
  answer := tx.answer S
  intake :=
    { S.intake with
      start := fun key size now s =>
        if tx.contains key then S.intake.start key size now s
        else (.error (.outsideTransaction key), s) }

/-! ## Ends -/

/-- A transaction ended by its owner. -/
def finish (tx : Transaction) (S : Storage σ) (ending : Ending) (s : σ) : Reply Unit × σ :=
  let (reply, s) := S.locking.release tx.lock s
  let s := S.locking.discard tx.lock s
  match reply.result with
  | .error e => (⟨.error e, reply.events⟩, s)
  | .ok () =>
    let message := s!"transaction {ending.name} on {S.identifier}: [{Key.describe tx.keys}]"
    (⟨.ok (), reply.events ++ [report .debug message]⟩, s)

/-- What runs in the background after a transaction was dropped by its owner: the lock is given
back, and then dropped. -/
def giveBack (tx : Transaction) (S : Storage σ) (s : σ) : List Event × σ :=
  let (reply, s) := S.locking.release tx.lock s
  let failure := match reply.result with
    | .ok () => []
    | .error e => [report .warn s!"releasing dropped transaction lock failed: {e.message}"]
  (reply.events ++ failure, S.locking.discard tx.lock s)

/-- A transaction dropped by its owner: the lock is given back in the background, or only dropped
where there is no background. -/
def drop (tx : Transaction) (S : Storage σ) (background : Bool) (s : σ) : List Event × σ :=
  let warning := report .warn
    s!"transaction on [{Key.describe tx.keys}] dropped without commit or abort, releasing lock"
  if background then
    let (events, s) := tx.giveBack S s
    (warning :: events, s)
  else ([warning], S.locking.discard tx.lock s)

end Transaction

namespace Storage

/-! ## Beginnings -/

/-- Asks for a transaction over keys, given in any order. -/
def begin (S : Storage σ) (keys : List Key) (s : σ) : PendingTransaction × σ :=
  let keys := Key.ordered keys
  let (lock, s) := S.locking.make keys s
  let (ticket, s) := S.locking.request lock s
  (⟨keys, lock, ticket⟩, s)

/-- The transaction that was asked for, if its lock is granted by now, or why it never will be. -/
def poll (S : Storage σ) (pending : PendingTransaction) (s : σ) :
    Option (Except StorageError Transaction) × List Event × σ :=
  match S.locking.poll pending.ticket s with
  | (.waiting, events, s) => (none, events, s)
  | (.granted, events, s) =>
    let message := s!"transaction started on {S.identifier}: [{Key.describe pending.keys}]"
    (some (.ok ⟨pending.keys, pending.lock⟩), events ++ [Transaction.report .debug message], s)
  | (.refused e, events, s) => (some (.error e), events, S.locking.discard pending.lock s)

/-- Asks no longer for a transaction. -/
def withdraw (S : Storage σ) (pending : PendingTransaction) (s : σ) : σ :=
  S.locking.discard pending.lock (S.locking.cancel pending.ticket s)

end Storage

/-! ## Bodies -/

section

variable {α : Type}

/-- What runs in a transaction. -/
abbrev TransactionBody (σ α : Type) := Transaction → σ → Reply α × σ

/-- A body run in an open transaction, which is committed if the body succeeds and aborted if it
fails. The error of the body wins over that of the abort. -/
def Transaction.conclude (tx : Transaction) (S : Storage σ) (body : TransactionBody σ α) (s : σ) :
    Reply α × σ :=
  let (reply, s) := body tx s
  match reply.result with
  | .ok value =>
    let (release, s) := tx.finish S .committed s
    (⟨release.result.map fun _ => value, reply.events ++ release.events⟩, s)
  | .error e =>
    let (release, s) := tx.finish S .aborted s
    let failure := match release.result with
      | .ok () => []
      | .error e =>
        [Transaction.report .warn s!"abort after failed operation also failed: {e.message}"]
    (⟨.error e, reply.events ++ release.events ++ failure⟩, s)

/-- A body run in a transaction over keys; nothing, if the transaction would have to wait. -/
def Storage.transactionally (S : Storage σ) (keys : List Key) (body : TransactionBody σ α) (s : σ) :
    Option (Reply α) × σ :=
  let (pending, s) := S.begin keys s
  match S.poll pending s with
  | (none, _, s) => (none, S.withdraw pending s)
  | (some (.error e), events, s) => (some ⟨.error e, events⟩, s)
  | (some (.ok tx), events, s) =>
    let (reply, s) := tx.conclude S body s
    (some ⟨reply.result, events ++ reply.events⟩, s)

end

end BlobStore
