import BlobStore.Error
import BlobStore.Json.Reader

/-!
# Configurations

A configuration is a JSON object with typed readers. A nested object is read as a configuration of
its own that remembers where it came from, so an error names the whole path of the field at fault.
A field that holds null is a field that is not there.

## Main definitions

* `Config`, `Config.ofJson`, `Config.ofText`: configurations and where they come from
* `Config.string`, `Config.optionalString`, `Config.flag`: readers of plain fields
* `Config.part`, `Config.optionalPart`: readers of nested configurations
-/

namespace BlobStore

/-- The fields of an object, and the path of the object if it is nested in another. -/
structure Config where
  fields : List (String × Json) := []
  path : Option String := none
deriving Inhabited

namespace Config

/-- The field that names the backend. -/
def discriminator : String := "type"

/-- The configuration without fields. -/
def empty : Config := {}

/-- What a value that is no object is called. -/
def describeJson : Json → String
  | .null => "null"
  | .boolean b => s!"boolean `{b}`"
  | .number (.real x) => s!"floating point `{x.decimal}`"
  | .number n => s!"integer `{Json.numberText n}`"
  | .string s => s!"string {Text.quoted s}"
  | .array _ => "sequence"
  | .object _ => "map"

/-- The configuration of a value, which must be an object. -/
def ofJson : Json → Except ConfigError Config
  | .object fields => .ok ⟨fields, none⟩
  | value => .error (.malformed s!"invalid type: {describeJson value}, expected a map")

/-- The configuration of a text, which must be that of an object. -/
def ofText (text : String) : Except ConfigError Config :=
  match Json.parse? text with
  | some value => ofJson value
  | none => .error (.malformed "not a JSON text")

/-- The configuration with a field set. -/
def holding (config : Config) (field : String) (value : Json) : Config :=
  { config with fields := Json.setField field value config.fields }

/-- The value of a field as it stands, null included. -/
def get? (config : Config) (field : String) : Option Json := Json.field? config.fields field

/-- The path of a field from the outermost configuration. -/
def qualified (config : Config) (field : String) : String :=
  match config.path with
  | some path => path ++ "." ++ field
  | none => field

/-! ## Readers -/

/-- A string, or nothing where the field is absent or null. -/
def optionalString (config : Config) (field : String) : Except ConfigError (Option String) :=
  match config.get? field with
  | none | some .null => .ok none
  | some (.string s) => .ok (some s)
  | some _ => .error (.invalidField (config.qualified field) .string)

/-- What a reader of an optional field found, where there must be something. -/
def required {α : Type} (config : Config) (field : String) :
    Except ConfigError (Option α) → Except ConfigError α
  | .ok (some value) => .ok value
  | .ok none => .error (.missingField (config.qualified field))
  | .error e => .error e

/-- A string that must be there. -/
def string (config : Config) (field : String) : Except ConfigError String :=
  config.required field (config.optionalString field)

/-- A text with its ASCII capitals made small. -/
def small (text : String) : List Char := text.toList.map Char.toLower

/-- A truth value, or one of the strings `true` and `false` in any ASCII case. -/
def flag (config : Config) (field : String) (default : Bool) : Except ConfigError Bool :=
  match config.get? field with
  | none | some .null => .ok default
  | some (.boolean b) => .ok b
  | some (.string s) =>
    if small s = "true".toList then .ok true
    else if small s = "false".toList then .ok false
    else .error (.invalidField (config.qualified field) .boolean)
  | some _ => .error (.invalidField (config.qualified field) .boolean)

/-- The configuration nested in a field, or nothing where the field is absent or null. -/
def optionalPart (config : Config) (field : String) : Except ConfigError (Option Config) :=
  match config.get? field with
  | none | some .null => .ok none
  | some (.object fields) => .ok (some ⟨fields, some (config.qualified field)⟩)
  | some _ => .error (.invalidField (config.qualified field) .object)

/-- A nested configuration that must be there. -/
def part (config : Config) (field : String) : Except ConfigError Config :=
  config.required field (config.optionalPart field)

/-- The name of the backend. -/
def backend (config : Config) : Except ConfigError String := config.string discriminator

end Config

end BlobStore
