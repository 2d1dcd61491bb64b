/-!
# Events

What a running program reports about itself: a level, the topic that reports, a message, and
named fields.

## Main definitions

* `Event`: one report
-/

namespace BlobStore

/-- How much an event matters. -/
inductive Level
  | trace
  | debug
  | info
  | warn
  | error
deriving DecidableEq, Repr

/-- The part of the library that reports. -/
inductive Topic
  | lock
  | transaction
  | logging
  | registry
  | disk
deriving DecidableEq, Repr

/-- What a part of the library reports, with named details. -/
structure Event where
  level : Level
  topic : Topic
  message : String
  fields : List (String × String) := []
deriving DecidableEq, Repr

end BlobStore
