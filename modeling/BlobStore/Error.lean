import BlobStore.Key

/-!
# Errors

What can go wrong, as causes. The wording of each cause is in its `message`.

## Main definitions

* `IoError`, `IoErrorKind`: failures of reading and writing
* `ContentError`, `LockError`, `ConfigError`: failures of contents, locks and configurations
* `StorageError`: failures of the requests of a storage
-/

namespace BlobStore

/-- The kinds of failure that reading and writing can report. -/
inductive IoErrorKind
  | notFound
  | permissionDenied
  | connectionRefused
  | connectionReset
  | hostUnreachable
  | networkUnreachable
  | connectionAborted
  | notConnected
  | addrInUse
  | addrNotAvailable
  | networkDown
  | brokenPipe
  | alreadyExists
  | wouldBlock
  | notADirectory
  | isADirectory
  | directoryNotEmpty
  | readOnlyFilesystem
  | filesystemLoop
  | staleNetworkFileHandle
  | invalidInput
  | invalidData
  | timedOut
  | writeZero
  | storageFull
  | notSeekable
  | quotaExceeded
  | fileTooLarge
  | resourceBusy
  | executableFileBusy
  | deadlock
  | crossesDevices
  | tooManyLinks
  | invalidFilename
  | argumentListTooLong
  | interrupted
  | unsupported
  | unexpectedEof
  | outOfMemory
  | inProgress
  | other
  | uncategorized
deriving DecidableEq, Repr

/-- A failure of reading or writing. -/
structure IoError where
  kind : IoErrorKind
  message : String
deriving DecidableEq, Repr

/-- Failures of draining a content. -/
inductive ContentError
  /-- The producer failed to yield the next chunk. -/
  | producer (cause : IoError)
  /-- The bytes cannot be read as what was asked for. -/
  | undecodable (reason : String)
deriving DecidableEq, Repr

/-- The failure in words. -/
def ContentError.message : ContentError → String
  | .producer cause => s!"content producer failed: {cause.message}"
  | .undecodable reason => s!"cannot decode content: {reason}"

/-- Failures of lock bookkeeping. -/
inductive LockError
  /-- A lock was given back that was not held; `keys` shows what it covers. -/
  | notHeld (keys : String)
deriving DecidableEq, Repr

/-- The failure in words. -/
def LockError.message : LockError → String
  | .notHeld keys => s!"lock on [{keys}] released while not held"

/-- What a configuration field must be. -/
inductive FieldKind
  | string
  | boolean
  | object
deriving DecidableEq, Repr

/-- The kind with its article. -/
def FieldKind.description : FieldKind → String
  | .string => "a string"
  | .boolean => "a boolean"
  | .object => "an object"

/-- Failures of building a storage from a configuration. -/
inductive ConfigError
  | unknownBackend (name : String)
  | missingField (field : String)
  | invalidField (field : String) (expected : FieldKind)
  | unsupportedCredentials (kind : String)
  | malformed (reason : String)
deriving DecidableEq, Repr

/-- The failure in words; fields are named with their paths. -/
def ConfigError.message : ConfigError → String
  | .unknownBackend name => s!"unknown storage backend '{name}'"
  | .missingField field => s!"missing required configuration field '{field}'"
  | .invalidField field expected =>
    s!"configuration field '{field}' must be {expected.description}"
  | .unsupportedCredentials kind => s!"unsupported credentials type '{kind}'"
  | .malformed reason => s!"malformed configuration: {reason}"

/-- Failures of the requests of a storage. -/
inductive StorageError
  | notFound (key : Key)
  | io (key : Key) (cause : IoError)
  /-- A failure of the backend that is not one of reading or writing. -/
  | backend (key : Key) (reason : String)
  | config (cause : ConfigError)
  | content (cause : ContentError)
  | lock (cause : LockError)
  | outsideTransaction (key : Key)
deriving DecidableEq, Repr

namespace StorageError

/-- The failure in words; a key is shown by its text. -/
def message : StorageError → String
  | .notFound key => s!"key not found: '{key}'"
  | .io key cause => s!"I/O error on '{key}': {cause.message}"
  | .backend key reason => s!"backend error on '{key}': {reason}"
  | .config cause => cause.message
  | .content cause => cause.message
  | .lock cause => cause.message
  | .outsideTransaction key => s!"key '{key}' is not part of the transaction"

/-- Whether there is just no value under the key. -/
def isNotFound : StorageError → Bool
  | .notFound _ => true
  | _ => false

/-- The error of a file operation for a key; a file that is not there is a key not found. -/
def ofIo (key : Key) (cause : IoError) : StorageError :=
  if cause.kind = .notFound then .notFound key else .io key cause

/-- The key that the error names, if it names one. -/
def key? : StorageError → Option Key
  | .notFound key | .io key _ | .backend key _ | .outsideTransaction key => some key
  | _ => none

/-- The same error with the key that it names replaced. -/
def mapKey (f : Key → Key) : StorageError → StorageError
  | .notFound key => .notFound (f key)
  | .io key cause => .io (f key) cause
  | .backend key reason => .backend (f key) reason
  | .outsideTransaction key => .outsideTransaction (f key)
  | other => other

end StorageError

end BlobStore
