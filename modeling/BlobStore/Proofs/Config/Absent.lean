import BlobStore.Proofs.Config.Bucket
import BlobStore.World

/-!
# Null is absent

A field that holds null is a field that is not there, whoever reads the configuration: what is read
depends on the path of the configuration and on the values of its fields that are not null.

## Main definitions

* `Json.dropField`, `Config.without`: a field removed
* `Config.value?`: the value of a field, if it holds one other than null
* `Config.AgreeOn`: configurations that cannot be told apart by a field
* `Factory.Blind`: makers of storages that cannot tell such configurations apart

## Main results

* `Config.Reader.read_congr`: what readers read
* `Registry.ofConfig_congr`: what storages are made
* `Config.null_is_absent`: null and nothing are read alike
-/

namespace BlobStore

/-! ## Fields -/

namespace Json

variable {fields : List (String × Json)} {name other : String} {value : Json}

/-- The fields without those of a name. -/
def dropField (name : String) (fields : List (String × Json)) : List (String × Json) :=
  fields.filter (·.1 ≠ name)

theorem field?_cons (name : String) (value : Json) (rest : List (String × Json))
    (other : String) :
    field? ((name, value) :: rest) other =
      if other = name then some value else field? rest other := by
  unfold field?
  rw [List.lookup_cons]
  by_cases h : other = name
  · simp [h]
  · rw [if_neg h, beq_eq_false_iff_ne.mpr h]

theorem field?_setField (name : String) (value : Json) (fields : List (String × Json))
    (other : String) :
    field? (setField name value fields) other =
      if other = name then some value else field? fields other := by
  induction fields with
  | nil => exact field?_cons name value [] other
  | cons entry rest ih =>
    obtain ⟨first, old⟩ := entry
    unfold setField
    split <;> grind [field?_cons]

theorem field?_dropField (name : String) (fields : List (String × Json)) (other : String) :
    field? (dropField name fields) other = if other = name then none else field? fields other := by
  induction fields with
  | nil => exact (ite_self none).symm
  | cons entry rest ih =>
    obtain ⟨first, old⟩ := entry
    by_cases hfirst : first = name
    · have hdrop : dropField name ((first, old) :: rest) = dropField name rest :=
        List.filter_cons_of_neg (by simpa using hfirst)
      grind [field?_cons]
    · have hkeep : dropField name ((first, old) :: rest) = (first, old) :: dropField name rest :=
        List.filter_cons_of_pos (by simpa using hfirst)
      grind [field?_cons]

end Json

namespace Config

variable {config c d : Config} {field name : String}

/-- The configuration without a field. -/
def without (config : Config) (field : String) : Config :=
  { config with fields := Json.dropField field config.fields }

/-- The value of a field, if it holds one other than null. -/
def value? (config : Config) (field : String) : Option Json :=
  match config.get? field with
  | some .null => none
  | other => other

/-- Configurations from one place whose values of a field are the same, or not there. -/
structure AgreeOn (field : String) (c d : Config) : Prop where
  path : c.path = d.path
  value? : c.value? field = d.value? field

/-- Configurations that agree on all fields. -/
def Agree (c d : Config) : Prop := ∀ field, AgreeOn field c d

/-- A null and a field that is not there are no values. -/
theorem agree_without (config : Config) (field : String) :
    Agree (config.holding field .null) (config.without field) := by
  refine fun name => ⟨rfl, ?_⟩
  simp only [value?, get?, holding, without, Json.field?_setField, Json.field?_dropField]
  by_cases hname : name = field
  · rw [if_pos hname, if_pos hname]
  · rw [if_neg hname, if_neg hname]

/-- To set a field changes no other. -/
theorem agreeOn_holding (hname : name ≠ field) (config : Config) (value other : Json) :
    AgreeOn name (config.holding field value) (config.holding field other) := by
  refine ⟨rfl, ?_⟩
  simp only [value?, get?, holding, Json.field?_setField, if_neg hname]

theorem AgreeOn.qualified (h : AgreeOn field c d) (name : String) :
    c.qualified name = d.qualified name := by
  unfold Config.qualified
  rw [h.path]

/-! ## Readers of fields -/

theorem optionalString_eq (config : Config) (field : String) : config.optionalString field =
    match config.value? field with
    | none => .ok none
    | some (.string s) => .ok (some s)
    | some _ => .error (.invalidField (config.qualified field) .string) := by
  unfold optionalString value?
  cases config.get? field with
  | none => rfl
  | some value => cases value <;> rfl

theorem optionalPart_eq (config : Config) (field : String) : config.optionalPart field =
    match config.value? field with
    | none => .ok none
    | some (.object fields) => .ok (some ⟨fields, some (config.qualified field)⟩)
    | some _ => .error (.invalidField (config.qualified field) .object) := by
  unfold optionalPart value?
  cases config.get? field with
  | none => rfl
  | some value => cases value <;> rfl

theorem flag_eq (config : Config) (field : String) (default : Bool) : config.flag field default =
    match config.value? field with
    | none => .ok default
    | some (.boolean b) => .ok b
    | some (.string s) =>
      if small s = "true".toList then .ok true
      else if small s = "false".toList then .ok false
      else .error (.invalidField (config.qualified field) .boolean)
    | some _ => .error (.invalidField (config.qualified field) .boolean) := by
  unfold flag value?
  cases config.get? field with
  | none => rfl
  | some value => cases value <;> rfl

namespace AgreeOn

variable (h : AgreeOn field c d)

include h

theorem optionalString : c.optionalString field = d.optionalString field := by
  rw [optionalString_eq, optionalString_eq, h.value?, h.qualified]

theorem string : c.string field = d.string field := by
  unfold Config.string required
  rw [h.optionalString, h.qualified]

theorem optionalPart : c.optionalPart field = d.optionalPart field := by
  rw [optionalPart_eq, optionalPart_eq, h.value?, h.qualified]

theorem part : c.part field = d.part field := by
  unfold Config.part required
  rw [h.optionalPart, h.qualified]

theorem flag (default : Bool) : c.flag field default = d.flag field default := by
  rw [flag_eq, flag_eq, h.value?, h.qualified]

end AgreeOn

end Config

/-! ## Readers of settings -/

open Config (Agree AgreeOn)

variable {c d : Config}

theorem CacheSettings.ofConfig_eq (config : Config) : CacheSettings.ofConfig config =
    config.optionalString "name" >>= fun name =>
      match config.value? "config" with
      | none => .error (.missingField "config")
      | some driver => .ok ⟨name.getD defaultName, driver⟩ := by
  unfold CacheSettings.ofConfig Config.value?
  cases config.get? "config" with
  | none => rfl
  | some value => cases value <;> rfl

theorem Credentials.ofConfig_congr (h : Agree c d) :
    Credentials.ofConfig c = Credentials.ofConfig d := by
  unfold Credentials.ofConfig
  rw [(h "type").string, (h "accessKeyId").string, (h "secretAccessKey").string]

theorem BucketSettings.others_congr (hbucket : AgreeOn "bucket" c d)
    (hregion : AgreeOn "region" c d) (hendpoint : AgreeOn "endpoint" c d)
    (hmultipart : AgreeOn "multipart" c d) : others c = others d := by
  unfold others
  rw [hbucket.string, hregion.optionalString, hendpoint.optionalString, hmultipart.flag]

/-- A block is read after it is set, wherever the configuration comes from. -/
theorem Config.optionalPart_holding (config : Config) (field : String)
    (inner : List (String × Json)) :
    (config.holding field (.object inner)).optionalPart field =
      .ok (some ⟨inner, some (config.qualified field)⟩) := by
  refine optionalPart_eq_some.mpr ⟨inner, ?_, rfl⟩
  simp only [get?, holding, Json.field?_setField, if_true]

/-- In the block of credentials, too, a null is a field that is not there. -/
theorem BucketSettings.ofConfig_inner (config : Config) (field : String)
    (inner : List (String × Json)) :
    ofConfig (config.holding "credentials" (.object (Json.setField field .null inner))) =
      ofConfig (config.holding "credentials" (.object (Json.dropField field inner))) := by
  have hothers : ∀ name, name ≠ "credentials" → AgreeOn name
      (config.holding "credentials" (.object (Json.setField field .null inner)))
      (config.holding "credentials" (.object (Json.dropField field inner))) :=
    fun name hname => Config.agreeOn_holding hname config _ _
  have hcredentials :=
    Credentials.ofConfig_congr
      (Config.agree_without ⟨inner, some (config.qualified "credentials")⟩ field)
  rw [ofConfig_eq, ofConfig_eq, block, block, Config.optionalPart_holding,
    Config.optionalPart_holding,
    others_congr (hothers "bucket" (by decide)) (hothers "region" (by decide))
      (hothers "endpoint" (by decide)) (hothers "multipart" (by decide))]
  exact congrArg (fun read => (read.map some) >>= _) hcredentials

theorem CacheSettings.ofConfig_congr (h : Agree c d) :
    CacheSettings.ofConfig c = CacheSettings.ofConfig d := by
  rw [ofConfig_eq, ofConfig_eq, (h "name").optionalString, (h "config").value?]

/-- Readers read the same of configurations that agree. -/
theorem Config.Reader.read_congr (h : Agree c d) (r : Reader) : r.read c = r.read d := by
  cases r with
  | backend => exact (h discriminator).string
  | string field => exact (h field).string
  | optionalString field => exact (h field).optionalString
  | flag field default => exact (h field).flag default
  | part field => exact (h field).part
  | optionalPart field => exact (h field).optionalPart
  | directory => exact congrArg (Except.map DirectorySettings.mk) (h "path").string
  | database => exact congrArg (Except.map DatabaseSettings.mk) (h "path").string
  | credentials => exact Credentials.ofConfig_congr h
  | bucket =>
    show BucketSettings.ofConfig c = BucketSettings.ofConfig d
    rw [BucketSettings.ofConfig_eq, BucketSettings.ofConfig_eq, BucketSettings.block,
      BucketSettings.block, (h "credentials").optionalPart,
      BucketSettings.others_congr (h _) (h _) (h _) (h _)]
  | cache => exact CacheSettings.ofConfig_congr h

/-! ## Makers of storages -/

section

variable {ω : Type}

/-- A maker of storages that makes the same from configurations that agree. -/
def Factory.Blind (factory : Factory ω) : Prop :=
  ∀ c d now w, Agree c d → factory c now w = factory d now w

/-- So does a registry of such makers. -/
theorem Registry.create_congr {registry : Registry ω} {name : String}
    (hblind : ∀ factory, registry.factories.get? name = some factory → factory.Blind)
    (h : Agree c d) (now : Time) (w : ω) :
    registry.create name c now w = registry.create name d now w := by
  unfold create
  cases hfactory : registry.factories.get? name with
  | none => rfl
  | some factory =>
    have hmade := hblind factory hfactory c d now w h
    simp only [hmade]

theorem Registry.ofConfig_congr {registry : Registry ω}
    (hblind : ∀ name factory, registry.factories.get? name = some factory → factory.Blind)
    (h : Agree c d) (now : Time) (w : ω) :
    registry.ofConfig c now w = registry.ofConfig d now w := by
  have hbackend : c.backend = d.backend := (h Config.discriminator).string
  unfold ofConfig
  rw [hbackend]
  cases d.backend with
  | error e => rfl
  | ok name => exact create_congr (hblind name) h now w

end

namespace World

theorem blind_memoryFactory : Factory.Blind memoryFactory := fun _ _ _ _ _ => rfl

theorem blind_directoryFactory : Factory.Blind directoryFactory := by
  intro c d now w h
  have hsettings : DirectorySettings.ofConfig c = DirectorySettings.ofConfig d :=
    Config.Reader.read_congr h .directory
  unfold directoryFactory
  rw [hsettings]

theorem blind_databaseFactory : Factory.Blind databaseFactory := by
  intro c d now w h
  have hsettings : DatabaseSettings.ofConfig c = DatabaseSettings.ofConfig d :=
    Config.Reader.read_congr h .database
  unfold databaseFactory
  rw [hsettings]

/-- No built-in backend tells a null from a field that is not there. -/
theorem blind_registry (name : String) (factory : Factory World)
    (h : registry.factories.get? name = some factory) : factory.Blind := by
  simp only [registry, Registry.of, builtins, Registry.registerAll, Registry.register,
    Registry.empty, Std.HashMap.get?_eq_getElem?, Std.HashMap.getElem?_insert] at h
  split at h
  · cases h
    exact blind_databaseFactory
  · split at h
    · cases h
      exact blind_directoryFactory
    · split at h
      · cases h
        exact blind_memoryFactory
      · rw [Std.HashMap.getElem?_empty] at h
        cases h

end World

/-! ## Null and nothing -/

/-- **Null is absent.** Whatever configuration a field is set to null in, the outermost or a nested
one, every reader reads the same of it, value or error, as of the configuration without that field,
and the registry of the built-in backends makes the same storage. The settings of a bucket are the
same, too, if the field stands in the block of credentials. -/
theorem Config.null_is_absent (config : Config) (field : String) :
    (∀ r : Reader, r.read (config.holding field .null) = r.read (config.without field)) ∧
      (∀ now w, World.registry.ofConfig (config.holding field .null) now w =
        World.registry.ofConfig (config.without field) now w) ∧
      ∀ inner, BucketSettings.ofConfig
          (config.holding "credentials" (.object (Json.setField field .null inner))) =
        BucketSettings.ofConfig
          (config.holding "credentials" (.object (Json.dropField field inner))) := by
  have hagree := config.agree_without field
  refine ⟨Reader.read_congr hagree, Registry.ofConfig_congr World.blind_registry hagree,
    BucketSettings.ofConfig_inner config field⟩

/-- What the driver of a cache is given may be of any kind, but a null is nothing. -/
example : CacheSettings.ofConfig ⟨[("config", .null)], none⟩ = .error (.missingField "config") :=
  rfl

end BlobStore
