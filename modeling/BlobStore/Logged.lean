import BlobStore.Storage

/-!
# Logged storages

A logged storage answers as the storage that it wraps, and adds one event to the report of every
request: a warning if the request failed, unless it failed because a key is not there, which
callers probe for.

## Main definitions

* `Logged.event`: the event for a request and its result
* `Storage.logged`: a storage that reports every request
-/

namespace BlobStore

namespace Logged

/-- How a truth value is shown. -/
def truth : Bool → String
  | true => "true"
  | false => "false"

/-- What the event of an answered request says about it. -/
def details (r : Request) (answer : r.Answer) : List (String × String) :=
  match r, answer with
  | .contains key, found => [("key", key.text), ("found", truth found)]
  | .list scope, keys => [("prefix", scope.text), ("count", toString keys.length)]
  | .save key content, _ => [("key", key.text), ("size", Content.sizeText content.size)]
  | .value key, _ => [("key", key.text)]
  | .move source destination, _ => [("source", source.text), ("destination", destination.text)]
  | .delete key, _ => [("key", key.text)]
  | .metadata key, _ => [("key", key.text)]

/-- The event for a request to the storage called `identifier`. -/
def event (identifier : String) (r : Request) (result : Except StorageError r.Answer) : Event :=
  let storage := ("storage", identifier)
  match result with
  | .ok answer => ⟨.debug, .logging, r.name, storage :: details r answer⟩
  | .error e =>
    let key := ("key", r.subject.text)
    if e.isNotFound then ⟨.debug, .logging, s!"{r.name}: not found", [storage, key]⟩
    else ⟨.warn, .logging, s!"{r.name} failed", [storage, key, ("error", e.message)]⟩

end Logged

variable {σ : Type}

/-- A reply to a save, with the event for it. -/
def Logged.saved (identifier : String) (key : Key) (size : Option Nat) (reply : Reply Unit) :
    Reply Unit :=
  let event := Logged.event identifier (.save key (.ofStream [] size)) reply.result
  { reply with events := reply.events ++ [event] }

/-- Saves that are reported when they end. -/
def Intake.logged (identifier : String) (i : Intake σ) : Intake σ where
  start key size now s :=
    let (reply, s) := i.start key size now s
    match reply.result with
    | .ok _ => (reply, s)
    | .error e =>
      (⟨.error e, (Logged.saved identifier key size ⟨.error e, reply.events⟩).events⟩, s)
  append := i.append
  finish key size draft now s :=
    let (reply, s) := i.finish key size draft now s
    (Logged.saved identifier key size reply, s)
  fail key size draft cause now s :=
    let (reply, s) := i.fail key size draft cause now s
    (Logged.saved identifier key size reply, s)
  abandon := i.abandon

/-- A backend that reports every request. -/
def Backend.logged (b : Backend σ) : Backend σ where
  identifier := b.identifier
  answer r time s :=
    let (reply, s) := b.answer r time s
    (⟨reply.result, reply.events ++ [Logged.event b.identifier r reply.result]⟩, s)
  intake := b.intake.logged b.identifier

/-- A storage that reports every request; its locks are those of the storage that it wraps. -/
def Storage.logged (s : Storage σ) : Storage σ where
  toBackend := s.toBackend.logged
  locking := s.locking

end BlobStore
