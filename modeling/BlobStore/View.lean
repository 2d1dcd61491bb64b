import BlobStore.Storage

/-!
# Views

A view shows the keys of a storage that start with a given key, without that start. Locks are taken
on the keys of the storage, so those who use the view and those who use the storage exclude each
other.

## Main definitions

* `View.answer`: the answer of a view
* `Storage.view`: the view of a storage
-/

namespace BlobStore

namespace View

/-- The key of the view for a key of the storage, or that key itself outside the view. -/
def inner (scope key : Key) : Key := (key.stripStart? scope).getD key

/-- An error of the storage, about the keys of the view. -/
def inward (scope : Key) (e : StorageError) : StorageError := e.mapKey (inner scope)

/-- The answer of the storage to `r.mapKeys scope.join`, as the answer of the view to `r`. -/
def relay (scope : Key) (r : Request) (reply : Reply (r.mapKeys scope.join).Answer) :
    Reply r.Answer :=
  let result : Except StorageError r.Answer :=
    match r, reply.result with
    | .contains _, result => result.mapError (inward scope)
    | .list _, result => (result.mapError (inward scope)).map (·.filterMap (·.stripStart? scope))
    | .save _ _, result => result.mapError (inward scope)
    | .value _, result => result.mapError (inward scope)
    | .move _ _, result => result.mapError (inward scope)
    | .delete _, result => result.mapError (inward scope)
    | .metadata _, result => result.mapError (inward scope)
  ⟨result, reply.events⟩

end View

variable {σ : Type}

/-- The saves that a view takes in. -/
def Intake.view (scope : Key) (i : Intake σ) : Intake σ where
  start key size now s :=
    let (reply, s) := i.start (scope.join key) size now s
    (reply.mapError (View.inward scope), s)
  append := i.append
  finish key size draft now s :=
    let (reply, s) := i.finish (scope.join key) size draft now s
    (reply.mapError (View.inward scope), s)
  fail key size draft cause now s :=
    let (reply, s) := i.fail (scope.join key) size draft cause now s
    (reply.mapError (View.inward scope), s)
  abandon := i.abandon

/-- The view of a backend on what lies under `scope`. -/
def Backend.view (scope : Key) (b : Backend σ) : Backend σ where
  identifier := s!"sub:{scope}:{b.identifier}"
  answer r time s :=
    let (reply, s) := b.answer (r.mapKeys scope.join) time s
    (View.relay scope r reply, s)
  intake := b.intake.view scope

/-- The view of a storage on what lies under `scope`. -/
def Storage.view (scope : Key) (s : Storage σ) : Storage σ where
  toBackend := s.toBackend.view scope
  locking := { s.locking with make := fun keys => s.locking.make (keys.map scope.join) }

end BlobStore
