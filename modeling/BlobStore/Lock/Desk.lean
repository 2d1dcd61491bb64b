import BlobStore.Polling
import BlobStore.Storage

/-!
# A desk for locks

One lock table with names for its locks and for the requests that wait. After every step those who
wait are polled.

## Main definitions

* `LockDesk`: the table and the names
* `LockDesk.acquire`, `LockDesk.withdraw`, `LockDesk.dismiss`: steps on what is named
* `LockDesk.settle`: the polling after a step
-/

namespace BlobStore

/-- A request that waits. -/
structure LockWaiter where
  name : String
  lock : String
  ticket : TicketId
deriving DecidableEq, Repr

/-- A lock table, with the names that its locks and requests were given. -/
structure LockDesk where
  table : LockTable := {}
  locks : List (String × LockId) := []
  /-- In the order of the requests. -/
  waiting : List LockWaiter := []
deriving DecidableEq

namespace LockDesk

/-- The lock of a name. -/
def find? (desk : LockDesk) (name : String) : Option LockId := desk.locks.lookup name

/-- A new lock under a name. -/
def make (desk : LockDesk) (name : String) (keys : List Key) : LockDesk :=
  let (lock, table) := desk.table.make keys
  { desk with table, locks := desk.locks ++ [(name, lock)] }

/-- A lock asked for once, under a name of its own; from then on it waits. -/
def acquire (desk : LockDesk) (lock : String) (id : LockId) (name : String) : Progress × LockDesk :=
  let (ticket, table) := desk.table.request id
  let (progress, _, table) := LockTable.locking.poll ticket table
  match progress with
  | .waiting => (progress, { desk with table, waiting := desk.waiting ++ [⟨name, lock, ticket⟩] })
  | progress => (progress, { desk with table })

/-- A lock given back. -/
def release (desk : LockDesk) (id : LockId) : Except StorageError Unit × LockDesk :=
  let (reply, table) := LockTable.locking.release id desk.table
  (reply.result, { desk with table })

/-- What waits and satisfies `which` is cancelled. -/
def withdraw (desk : LockDesk) (which : LockWaiter → Bool) : Nat × LockDesk :=
  let (gone, waiting) := desk.waiting.partition which
  let table := gone.foldl (fun table w => table.cancel w.ticket) desk.table
  (gone.length, { desk with table, waiting })

/-- A lock dropped, with all that waits for it. -/
def dismiss (desk : LockDesk) (name : String) (id : LockId) : LockDesk :=
  let (_, desk) := desk.withdraw (·.lock == name)
  { desk with table := desk.table.discard id, locks := desk.locks.filter (·.1 != name) }

/-- Polls those who wait, and gives the names of those who are granted. -/
def settle (desk : LockDesk) : List String × LockDesk :=
  let poll := fun (w : LockWaiter) table =>
    let (progress, events, table) := LockTable.locking.poll w.ticket table
    (progress.outcome?, events, table)
  let (done, waiting, _, table) := Polling.settle poll desk.waiting desk.table
  (done.map (·.1.name), { desk with waiting, table })

/-- The locks by their names, and whether each is held. -/
def held (desk : LockDesk) : List (String × Bool) :=
  desk.locks.map fun (name, lock) => (name, desk.table.isHeld lock)

end LockDesk

end BlobStore
