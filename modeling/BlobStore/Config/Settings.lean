import BlobStore.Config

/-!
# Settings of the backends

What each backend needs to know, read from a configuration. A reader stops at the first field at
fault.

## Main definitions

* `DirectorySettings`, `DatabaseSettings`: where a storage on disk lives
* `Credentials`, `BucketSettings`, `CacheSettings`: what drivers of other backends are given
-/

namespace BlobStore

/-- The settings of the backend `fs`. -/
structure DirectorySettings where
  path : String
deriving DecidableEq, Repr

/-- The settings in a configuration; the path must be there. -/
def DirectorySettings.ofConfig (config : Config) : Except ConfigError DirectorySettings :=
  (config.string "path").map DirectorySettings.mk

/-- The settings of the backend `sqlite`. -/
structure DatabaseSettings where
  /-- A file, or `:memory:`. -/
  path : String
deriving DecidableEq, Repr

/-- The settings in a configuration; the path must be there. -/
def DatabaseSettings.ofConfig (config : Config) : Except ConfigError DatabaseSettings :=
  (config.string "path").map DatabaseSettings.mk

/-- What the backend `s3` can sign its requests with. -/
inductive Credentials
  | basic (accessKeyId secretAccessKey : String)
deriving DecidableEq, Repr

namespace Credentials

/-- The credentials in a configuration, whose `type` says which they are. -/
def ofConfig (config : Config) : Except ConfigError Credentials := do
  let kind ← config.string "type"
  if kind = "basic" then
    let accessKeyId ← config.string "accessKeyId"
    let secretAccessKey ← config.string "secretAccessKey"
    return .basic accessKeyId secretAccessKey
  else
    throw (.unsupportedCredentials kind)

/-- Credentials as they are shown to a developer; the secret is not. -/
def debug : Credentials → String
  | .basic accessKeyId _ =>
    "Basic \x7b access_key_id: " ++ Text.quoted accessKeyId ++ ", .. \x7d"

end Credentials

/-- The settings of the backend `s3`. -/
structure BucketSettings where
  bucket : String
  region : Option String
  endpoint : Option String
  /-- On, unless it is turned off. -/
  multipart : Bool
  /-- Without credentials the driver looks for its own. -/
  credentials : Option Credentials
deriving DecidableEq, Repr

/-- Credentials come first, so a fault in them is reported before one in any other field. -/
def BucketSettings.ofConfig (config : Config) : Except ConfigError BucketSettings := do
  let part ← config.optionalPart "credentials"
  let credentials ← match part with
    | some part => (Credentials.ofConfig part).map some
    | none => pure none
  let bucket ← config.string "bucket"
  let region ← config.optionalString "region"
  let endpoint ← config.optionalString "endpoint"
  let multipart ← config.flag "multipart" true
  return ⟨bucket, region, endpoint, multipart, credentials⟩

/-- The settings of the backend `redis`. -/
structure CacheSettings where
  name : String
  /-- Handed to the driver as it is. -/
  config : Json

namespace CacheSettings

/-- The name that is used if the configuration gives none. -/
def defaultName : String := "artipie-redis"

/-- The error names the field without the path of the configuration. -/
def ofConfig (config : Config) : Except ConfigError CacheSettings := do
  let name ← config.optionalString "name"
  match config.get? "config" with
  | none | some .null => throw (.missingField "config")
  | some driver => return ⟨name.getD defaultName, driver⟩

end CacheSettings

end BlobStore
