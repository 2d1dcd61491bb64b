import BlobStore.Error
import BlobStore.Lock.Mutex
import BlobStore.OrderedMap

/-!
# Lock tables

A lock table has one mutex for every key that somebody owns or waits for. A lock covers a fixed set
of keys. A request for a lock takes the mutexes of its keys one after the other in ascending order
and keeps what it took while it waits for the next. All requests follow the one order of keys, so no
two of them can wait for each other.

The mutex of a key is made when a request first comes to the key, and forgotten when a lock that
covers the key is given back or dropped and nobody owns the mutex or waits for it.

## Main definitions

* `LockTable`: mutexes, locks, and requests that have not been granted
* `LockTable.make`, `LockTable.discard`: the life of a lock
* `LockTable.request`, `LockTable.poll`, `LockTable.cancel`: the life of a request
* `LockTable.release`: a granted lock given back
-/

namespace BlobStore

/-- The number of a lock. -/
abbrev LockId := Nat

/-- A request that was granted, with the keys whose mutexes it took. -/
structure Grant where
  ticket : TicketId
  keys : List Key
deriving DecidableEq, Repr

/-- A lock over distinct keys in ascending order. -/
structure KeysLock where
  keys : List Key
  held : Option Grant := none
deriving DecidableEq, Repr

namespace KeysLock

/-- Whether a request for the lock was granted and it was not given back. -/
def isHeld (lock : KeysLock) : Bool := lock.held.isSome

/-- A lock as it is shown to a developer. -/
def debug (lock : KeysLock) : String :=
  s!"KeysLock([{Key.describe lock.keys}], held={lock.isHeld})"

end KeysLock

/-- A request that has not been granted: the keys that it took, and those still to be taken. -/
structure Ticket where
  lock : LockId
  taken : List Key := []
  remaining : List Key
deriving DecidableEq, Repr

/-- All mutexes, locks and waiting requests, by their keys and numbers. -/
structure LockTable where
  mutexes : OrderedMap Key Mutex := .empty
  locks : OrderedMap LockId KeysLock := .empty
  tickets : OrderedMap TicketId Ticket := .empty
  /-- Names nothing yet, and nothing above it does. -/
  fresh : Nat := 0
deriving DecidableEq, Repr, Inhabited

/-! ## Mutexes by their keys -/

/-- Mutexes by their keys. -/
abbrev Mutexes := OrderedMap Key Mutex

namespace Mutexes

/-- Takes key after key for `t`, up to the first that another request owns: the keys taken, and
those left. -/
def collect (t : TicketId) : List Key → Mutexes → List Key × List Key × Mutexes
  | [], ms => ([], [], ms)
  | k :: rest, ms =>
    let m := ((ms.get? k).getD {}).claim t
    if m.owner = some t then
      let (taken, remaining, ms) := collect t rest (ms.put k m)
      (k :: taken, remaining, ms)
    else ([], k :: rest, ms.put k m)

/-- Gives up, for `t`, the mutexes of keys that it owns or waits for. -/
def leaveAll (t : TicketId) (keys : List Key) (ms : Mutexes) : Mutexes :=
  keys.foldl (fun ms k => ms.alter k (·.leave t)) ms

/-- Forgets the mutex of a key, if nobody owns it or waits for it. -/
def forget (ms : Mutexes) (k : Key) : Mutexes :=
  match ms.get? k with
  | some m => if m.isIdle then ms.erase k else ms
  | none => ms

/-- Forgets the idle ones among the mutexes of some keys. -/
def prune (keys : List Key) (ms : Mutexes) : Mutexes := keys.foldl forget ms

end Mutexes

namespace LockTable

/-! ## Locks -/

/-- A new lock over a set of keys, given in any order. -/
def make (table : LockTable) (keys : List Key) : LockId × LockTable :=
  (table.fresh,
    { table with
      locks := table.locks.put table.fresh ⟨Key.ordered keys, none⟩
      fresh := table.fresh + 1 })

/-- The keys of a lock. -/
def keysOf (table : LockTable) (lock : LockId) : List Key :=
  match table.locks.get? lock with
  | some lock => lock.keys
  | none => []

/-- Whether a lock is there and held. -/
def isHeld (table : LockTable) (lock : LockId) : Bool :=
  match table.locks.get? lock with
  | some lock => lock.isHeld
  | none => false

/-- The number of keys that have a mutex. -/
def size (table : LockTable) : Nat := table.mutexes.size

/-- No key has a mutex. -/
def isEmpty (table : LockTable) : Bool := table.mutexes.isEmpty

/-- A table as it is shown to a developer. -/
def debug (table : LockTable) : String := "LockTable \x7b keys: " ++ toString table.size ++ " \x7d"

/-! ## Requests -/

/-- A new request for a lock; it has taken nothing yet. -/
def request (table : LockTable) (lock : LockId) : TicketId × LockTable :=
  (table.fresh,
    { table with
      tickets := table.tickets.put table.fresh ⟨lock, [], table.keysOf lock⟩
      fresh := table.fresh + 1 })

/-- The mutexes of a grant given up. -/
def giveUp (table : LockTable) (grant : Grant) : LockTable :=
  { table with mutexes := Mutexes.leaveAll grant.ticket grant.keys table.mutexes }

/-- A lock held from now on; what it held before is given up. -/
def hold (table : LockTable) (lock : LockId) (grant : Grant) : LockTable :=
  match table.locks.get? lock with
  | none => table
  | some old =>
    let table := match old.held with
      | some before => table.giveUp before
      | none => table
    { table with locks := table.locks.put lock { old with held := some grant } }

/-- Takes what a request can take now, and says whether it is granted thereby. -/
def poll (table : LockTable) (t : TicketId) : Bool × LockTable :=
  match table.tickets.get? t with
  | none => (false, table)
  | some ticket =>
    let (taken, remaining, mutexes) := Mutexes.collect t ticket.remaining table.mutexes
    let taken := ticket.taken ++ taken
    match remaining with
    | [] =>
      (true, hold { table with mutexes, tickets := table.tickets.erase t } ticket.lock ⟨t, taken⟩)
    | remaining =>
      (false,
        { table with mutexes, tickets := table.tickets.put t { ticket with taken, remaining } })

/-- A request given up: what it took, and the key that it waits for, which may be its own by now
without its knowing. -/
def cancel (table : LockTable) (t : TicketId) : LockTable :=
  match table.tickets.get? t with
  | none => table
  | some ticket =>
    { table with
      mutexes := Mutexes.leaveAll t (ticket.taken ++ ticket.remaining.take 1) table.mutexes
      tickets := table.tickets.erase t }

/-! ## The end of a grant -/

/-- A held lock given back; its keys that nobody else wants are forgotten. -/
def release (table : LockTable) (lock : LockId) : Except LockError Unit × LockTable :=
  match table.locks.get? lock with
  | none => (.error (.notHeld ""), table)
  | some old =>
    match old.held with
    | none => (.error (.notHeld (Key.describe old.keys)), table)
    | some grant =>
      let table := table.giveUp grant
      (.ok (),
        { table with
          mutexes := Mutexes.prune old.keys table.mutexes
          locks := table.locks.put lock { old with held := none } })

/-- The requests of a lock. -/
def ticketsOf (table : LockTable) (lock : LockId) : List TicketId :=
  (table.tickets.entries.filter (·.2.lock = lock)).map (·.1)

/-- A lock dropped: its requests are given up, and what it held is given back. -/
def discard (table : LockTable) (lock : LockId) : LockTable :=
  let table := (table.ticketsOf lock).foldl cancel table
  match table.locks.get? lock with
  | none => table
  | some old =>
    let table := match old.held with
      | some grant => table.giveUp grant
      | none => table
    { table with
      mutexes := Mutexes.prune old.keys table.mutexes
      locks := table.locks.erase lock }

end LockTable

end BlobStore
