import BlobStore.Content
import BlobStore.Event
import BlobStore.Meta

/-!
# Requests

What a storage can be asked, and what it answers.

## Main definitions

* `Request`, `Request.Answer`: the requests and the type of the answer to each
* `Reply`: an answer or an error, with what was reported on the way
-/

namespace BlobStore

/-- What a storage can be asked. -/
inductive Request
  /-- Whether a value is stored under a key. -/
  | contains (key : Key)
  /-- The keys nested under a key, which is not itself among them, in ascending order. -/
  | list (scope : Key)
  /-- A content stored under a key, in place of the value that was there. -/
  | save (key : Key) (content : Content)
  | value (key : Key)
  /-- A value put under another key, in place of the value that was there. -/
  | move (source destination : Key)
  | delete (key : Key)
  | metadata (key : Key)
deriving DecidableEq

namespace Request

/-- The type of the answer to a request. -/
abbrev Answer : Request → Type
  | .contains _ => Bool
  | .list _ => List Key
  | .save _ _ => Unit
  | .value _ => Content
  | .move _ _ => Unit
  | .delete _ => Unit
  | .metadata _ => Meta

/-- The name of a request in reports. -/
def name : Request → String
  | .contains _ => "exists"
  | .list _ => "list"
  | .save _ _ => "save"
  | .value _ => "value"
  | .move _ _ => "move"
  | .delete _ => "delete"
  | .metadata _ => "metadata"

/-- The key that a report on a failed request names: of a move the source. -/
def subject : Request → Key
  | .contains key | .list key | .save key _ | .value key | .move key _ | .delete key
  | .metadata key => key

/-- The same request with its keys replaced. -/
def mapKeys (f : Key → Key) : Request → Request
  | .contains key => .contains (f key)
  | .list scope => .list (f scope)
  | .save key content => .save (f key) content
  | .value key => .value (f key)
  | .move source destination => .move (f source) (f destination)
  | .delete key => .delete (f key)
  | .metadata key => .metadata (f key)

end Request

/-- An answer or an error, and the events on the way to it. -/
structure Reply (α : Type) where
  result : Except StorageError α
  events : List Event := []

namespace Reply

variable {α : Type}

/-- An answer without any report. -/
def ok (value : α) : Reply α := ⟨.ok value, []⟩

/-- An error without any report. -/
def error (e : StorageError) : Reply α := ⟨.error e, []⟩

/-- The same reply with its error replaced. -/
def mapError (f : StorageError → StorageError) (reply : Reply α) : Reply α :=
  { reply with result := reply.result.mapError f }

/-- The value, or the error of a key that is not there. -/
def orNotFound (key : Key) : Option α → Reply α
  | some value => ok value
  | none => error (.notFound key)

end Reply

end BlobStore
