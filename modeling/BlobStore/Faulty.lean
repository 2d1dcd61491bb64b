import BlobStore.Storage

/-!
# Faulty storages

A storage whose requests fail, for trying out what is built on storages. Two requests can be told to
succeed, and its locks can be told to fail.

## Main definitions

* `Faulty`: what fails and how
* `Faulty.storage`: the storage that fails so
-/

namespace BlobStore

/-- Which part of a lock fails. -/
inductive LockFault
  | acquire
  | release
deriving DecidableEq, Repr

/-- What a faulty storage answers. -/
structure Faulty where
  /-- The error of a request that names a key. -/
  fault : Key → StorageError
  /-- What listing gives, if it succeeds. -/
  list : Option (List Key) := none
  /-- What every value is, if there is one. -/
  value : Option Content := none
  lock : Option LockFault := none

namespace Faulty

/-- The answer to a request; the error of a move names the destination. -/
def answer (f : Faulty) : (r : Request) → Reply r.Answer
  | .contains key => .error (f.fault key)
  | .list scope =>
    match f.list with
    | some keys => .ok keys
    | none => .error (f.fault scope)
  | .save key _ => .error (f.fault key)
  | .value key =>
    match f.value with
    | some content => .ok content
    | none => .error (f.fault key)
  | .move _ destination => .error (f.fault destination)
  | .delete key => .error (f.fault key)
  | .metadata key => .error (f.fault key)

/-- The locks of a lock table, with one part that fails. -/
def locking (fault : Option LockFault) : Locking LockTable :=
  match fault with
  | none => LockTable.locking
  | some .acquire =>
    { LockTable.locking with
      poll := fun _ table => (.refused (.lock (.notHeld "refused")), [], table) }
  | some .release =>
    { LockTable.locking with
      release := fun _ table => (.error (.lock (.notHeld "stuck")), table) }

/-- The storage, with its locks. A save fails before its content is pulled. -/
def storage (f : Faulty) : Storage LockTable where
  identifier := "faulty"
  answer r _ table := (f.answer r, table)
  intake :=
    { Intake.gathering fun r _ table => (f.answer r, table) with
      start := fun key _ _ table => (.error (f.fault key), table) }
  locking := locking f.lock

end Faulty

end BlobStore
