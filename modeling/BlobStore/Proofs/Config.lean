import BlobStore.Config.Settings

/-!
# Errors of configurations

A reader of a configuration asks something of each of its fields and stops at the first one that is
at fault. The error names that field by the names on the way to it, from the outermost object, with
dots between them. Only the reader of the settings of a cache leaves the way out, and only where the
block for its driver is not there.

## Main definitions

* `Config.dotted`, `Config.Within`: the configurations nested in an object and the names on the way
* `Config.Demand`, `Config.Fault`: what is asked of a field, and how a field falls short of it
* `Config.Reader`: the readers of configurations, with what they ask

## Main results

* `Config.Within.qualified`: a nested configuration knows the whole way to its fields
* `Config.Reader.error_names_field`: an error names the whole way to the first field at fault
-/

namespace BlobStore

namespace Config

variable {α β : Type} {fields inner : List (String × Json)} {names : List String}
  {config part : Config} {field name : String} {e : ConfigError}

/-! ## Nested configurations -/

/-- Names with dots between them, as errors show the way to a field. -/
def dotted : List String → String
  | [] => ""
  | [name] => name
  | name :: next :: rest => name ++ "." ++ dotted (next :: rest)

theorem dotted_concat (h : names ≠ []) (field : String) :
    dotted (names ++ [field]) = dotted names ++ "." ++ field := by
  induction names with
  | nil => exact absurd rfl h
  | cons name rest ih =>
    cases rest with
    | nil => rfl
    | cons next rest =>
      have hrest := ih (List.cons_ne_nil next rest)
      simp only [List.cons_append, dotted] at hrest ⊢
      rw [hrest]
      simp only [String.append_assoc]

/-- The configurations read from an object, with the names on the way: the object itself, and the
blocks of such configurations, required or not. -/
inductive Within (fields : List (String × Json)) : List String → Config → Prop
  | top : Within fields [] ⟨fields, none⟩
  | part {names : List String} {config part : Config} {name : String}
    (h : Within fields names config) (hp : config.part name = .ok part) :
    Within fields (names ++ [name]) part
  | optionalPart {names : List String} {config part : Config} {name : String}
    (h : Within fields names config) (hp : config.optionalPart name = .ok (some part)) :
    Within fields (names ++ [name]) part

theorem optionalPart_eq_some : config.optionalPart name = .ok (some part) ↔
    ∃ inner, config.get? name = some (.object inner) ∧
      part = ⟨inner, some (config.qualified name)⟩ := by
  unfold optionalPart
  split
  case h_3 inner hget => simp [hget, eq_comm]
  all_goals simp_all

theorem part_eq_ok : config.part name = .ok part ↔
    config.optionalPart name = .ok (some part) := by
  unfold Config.part required
  split <;> simp_all

/-- A nested configuration knows the names on the way to it. -/
theorem Within.path (h : Within fields names config) :
    config.path = if names = [] then none else some (dotted names) := by
  have hconcat {names : List String} {config part : Config} {name : String}
      (ih : config.path = if names = [] then none else some (dotted names))
      (hp : config.optionalPart name = .ok (some part)) :
      part.path = if names ++ [name] = [] then none else some (dotted (names ++ [name])) := by
    obtain ⟨inner, -, rfl⟩ := optionalPart_eq_some.mp hp
    rw [if_neg (by simp)]
    by_cases hn : names = []
    · subst hn
      simp [qualified, ih, dotted]
    · simp [qualified, ih, hn, dotted_concat hn]
  induction h with
  | top => rfl
  | part _ hp ih => exact hconcat ih (part_eq_ok.mp hp)
  | optionalPart _ hp ih => exact hconcat ih hp

/-- A nested configuration names its fields by the whole way to them. -/
theorem Within.qualified (h : Within fields names config) (field : String) :
    config.qualified field = dotted (names ++ [field]) := by
  unfold Config.qualified
  rw [h.path]
  by_cases hn : names = []
  · subst hn
    rfl
  · rw [if_neg hn, dotted_concat hn]

/-! ## Demands -/

/-- How a field falls short: it is not there, or it is not what it must be. -/
inductive Fault
  | absent
  | unfit (expected : FieldKind)
deriving DecidableEq, Repr

/-- The error that names a field for its fault. -/
def Fault.error (field : String) : Fault → ConfigError
  | .absent => .missingField field
  | .unfit expected => .invalidField field expected

/-- The field that an error names. -/
def errorField? : ConfigError → Option String
  | .missingField field => some field
  | .invalidField field _ => some field
  | _ => none

/-- What a field can hold for what it must be; a truth value may be written as a string. -/
def fits : FieldKind → Json → Bool
  | .string, .string _ => true
  | .boolean, .boolean _ => true
  | .boolean, .string s => small s = "true".toList ∨ small s = "false".toList
  | .object, .object _ => true
  | _, _ => false

/-- What a reader asks of a field, which may stand in a block of the configuration. -/
structure Demand where
  block : List String := []
  name : String
  /-- Without a kind the field may hold anything but null. -/
  kind : Option FieldKind
  required : Bool
deriving DecidableEq, Repr

namespace Demand

/-- The names on the way to the field, from the configuration that is read. -/
def path (d : Demand) : List String := d.block ++ [d.name]

/-- The demand on a block, asked of a configuration that holds the block. -/
def under (d : Demand) (name : String) : Demand := { d with block := name :: d.block }

/-- The fields of the block at the end of a way; the way ends at a field that is no object. -/
def follow? (fields : List (String × Json)) : List String → Option (List (String × Json))
  | [] => some fields
  | name :: rest =>
    match Json.field? fields name with
    | some (.object inner) => follow? inner rest
    | _ => none

/-- The fault of a field among those of its block; a null is not there. -/
def faultAmong (d : Demand) (fields : List (String × Json)) : Option Fault :=
  match Json.field? fields d.name with
  | none | some .null => if d.required then some .absent else none
  | some value =>
    match d.kind with
    | none => none
    | some kind => if fits kind value then none else some (.unfit kind)

/-- The fault of a field; of a block that is not there nothing is asked. -/
def fault? (d : Demand) (fields : List (String × Json)) : Option Fault :=
  (follow? fields d.block).bind d.faultAmong

end Demand

/-- The first demand that is not met, with the fault of its field. -/
def firstFault? (fields : List (String × Json)) (demands : List Demand) :
    Option (Demand × Fault) :=
  demands.findSome? fun d => (d.fault? fields).map fun fault => (d, fault)

theorem firstFault?_singleton (d : Demand) :
    firstFault? fields [d] = (d.fault? fields).map fun fault => (d, fault) := by
  unfold firstFault?
  rw [List.findSome?_cons]
  cases d.fault? fields <;> rfl

theorem firstFault?_append (fields : List (String × Json)) (demands others : List Demand) :
    firstFault? fields (demands ++ others) =
      (firstFault? fields demands).or (firstFault? fields others) :=
  List.findSome?_append

theorem mem_of_firstFault? {d : Demand} {fault : Fault} {demands : List Demand}
    (h : firstFault? fields demands = some (d, fault)) : d ∈ demands := by
  obtain ⟨found, hmem, hfound⟩ := List.exists_of_findSome?_eq_some h
  obtain ⟨_, -, hpair⟩ := Option.map_eq_some_iff.mp hfound
  cases hpair
  exact hmem

theorem fault?_under (d : Demand) (h : Json.field? fields name = some (.object inner)) :
    (d.under name).fault? fields = d.fault? inner := by
  simp [Demand.under, Demand.fault?, Demand.follow?, h]
  rfl

/-- The demands on a block are met in it as they are from outside. -/
theorem firstFault?_under (h : Json.field? fields name = some (.object inner))
    (demands : List Demand) :
    firstFault? fields (demands.map (·.under name)) =
      (firstFault? inner demands).map fun found => (found.1.under name, found.2) := by
  induction demands with
  | nil => rfl
  | cons d rest ih =>
    unfold firstFault? at ih ⊢
    rw [List.map_cons, List.findSome?_cons, List.findSome?_cons, ih, fault?_under d h]
    cases d.fault? inner <;> rfl

/-- Nothing is asked of a block that is not there. -/
theorem firstFault?_under_of_absent
    (h : ∀ inner, Json.field? fields name ≠ some (.object inner)) (demands : List Demand) :
    firstFault? fields (demands.map (·.under name)) = none := by
  unfold firstFault?
  rw [List.findSome?_eq_none_iff]
  intro d hd
  obtain ⟨d, -, rfl⟩ := List.mem_map.mp hd
  have hfollow : Demand.follow? fields (d.under name).block = none := by
    show Demand.follow? fields (name :: d.block) = none
    unfold Demand.follow?
    split
    · rename_i inner hget
      exact absurd hget (h inner)
    · rfl
  simp [Demand.fault?, hfollow]

/-! ## Reports -/

/-- A computation reports the first demand that is not met, by the text `shown` for it: it succeeds
only if all are met, and an error that names a field is the one for the first fault. -/
def Reports (fields : List (String × Json)) (shown : Demand → String) (demands : List Demand) :
    Except ConfigError α → Prop
  | .ok _ => firstFault? fields demands = none
  | .error e => errorField? e ≠ none →
    ∃ d fault, firstFault? fields demands = some (d, fault) ∧ e = fault.error (shown d)

/-- A demand as it is shown by default: the whole way to its field. -/
def shownPath (names : List String) (d : Demand) : String := dotted (names ++ d.path)

@[simp] theorem shownPath_field (names : List String) (field : String) (kind : Option FieldKind)
    (required : Bool) : shownPath names { name := field, kind := kind, required := required } =
      dotted (names ++ [field]) := rfl

namespace Reports

variable {shown shown' : Demand → String} {demands others : List Demand}
  {x : Except ConfigError α} {f : α → Except ConfigError β}

theorem pure (a : α) : Reports fields shown [] (.ok a : Except ConfigError α) := rfl

/-- The computation that goes on reports what the first one does not. -/
theorem bind (h : Reports fields shown demands x)
    (hf : ∀ a, x = .ok a → Reports fields shown others (f a)) :
    Reports fields shown (demands ++ others) (x >>= f) := by
  cases x with
  | error e =>
    intro hfield
    obtain ⟨d, fault, hfirst, he⟩ := h hfield
    refine ⟨d, fault, ?_, he⟩
    rw [firstFault?_append, hfirst]
    rfl
  | ok a =>
    have hnone : firstFault? fields demands = none := h
    have hskip : firstFault? fields (demands ++ others) = firstFault? fields others := by
      rw [firstFault?_append, hnone, Option.none_or]
    have hrest := hf a rfl
    show Reports fields shown (demands ++ others) (f a)
    unfold Reports at hrest ⊢
    rwa [hskip]

theorem map (h : Reports fields shown demands x) (g : α → β) :
    Reports fields shown demands (x.map g) := by
  cases x <;> exact h

theorem congr (h : Reports fields shown demands x)
    (hshown : ∀ d ∈ demands, shown d = shown' d) : Reports fields shown' demands x := by
  cases x with
  | ok a => exact h
  | error e =>
    intro hfield
    obtain ⟨d, fault, hfirst, he⟩ := h hfield
    exact ⟨d, fault, hfirst, by rw [he, hshown d (mem_of_firstFault? hfirst)]⟩

/-- What reports the demands on a block reports them to the configuration that holds it. -/
theorem nested (hget : Json.field? fields name = some (.object inner))
    (h : Reports inner (shownPath (names ++ [name])) demands x) :
    Reports fields (shownPath names) (demands.map (·.under name)) x := by
  cases x with
  | ok a =>
    have hnone : firstFault? inner demands = none := h
    show firstFault? fields (demands.map (·.under name)) = none
    rw [firstFault?_under hget, hnone]
    rfl
  | error e =>
    intro hfield
    obtain ⟨d, fault, hfirst, he⟩ := h hfield
    refine ⟨d.under name, fault, ?_, ?_⟩
    · rw [firstFault?_under hget, hfirst]
      rfl
    · rw [he]
      simp [shownPath, Demand.path, Demand.under]

/-- One field is read: there is a value unless it is at fault, and else an error for its fault. -/
theorem of_field {d : Demand} (hblock : d.block = [])
    (h : match x with
      | .ok _ => d.faultAmong fields = none
      | .error e => ∃ fault, d.faultAmong fields = some fault ∧ e = fault.error (shown d)) :
    Reports fields shown [d] x := by
  have hfault : firstFault? fields [d] = (d.faultAmong fields).map fun fault => (d, fault) := by
    rw [firstFault?_singleton]
    simp [Demand.fault?, Demand.follow?, hblock]
  cases x with
  | ok a =>
    show firstFault? fields [d] = none
    rw [hfault, h]
    rfl
  | error e =>
    intro _
    obtain ⟨fault, hamong, he⟩ := h
    exact ⟨d, fault, by rw [hfault, hamong]; rfl, he⟩

end Reports

/-! ## Readers of fields -/

theorem Within.reports_optionalString (h : Within fields names config) (field : String) :
    Reports config.fields (shownPath names)
      [{ name := field, kind := some .string, required := false }]
      (config.optionalString field) := by
  refine Reports.of_field rfl ?_
  have hname := h.qualified field
  unfold Config.optionalString get?
  cases hget : Json.field? config.fields field with
  | none => simp [Demand.faultAmong, hget]
  | some value => cases value <;> simp [Demand.faultAmong, hget, fits, Fault.error, hname]

theorem Within.reports_string (h : Within fields names config) (field : String) :
    Reports config.fields (shownPath names)
      [{ name := field, kind := some .string, required := true }]
      (config.string field) := by
  refine Reports.of_field rfl ?_
  have hname := h.qualified field
  unfold Config.string required Config.optionalString get?
  cases hget : Json.field? config.fields field with
  | none => simp [Demand.faultAmong, hget, Fault.error, hname]
  | some value => cases value <;> simp [Demand.faultAmong, hget, fits, Fault.error, hname]

theorem Within.reports_flag (h : Within fields names config) (field : String) (default : Bool) :
    Reports config.fields (shownPath names)
      [{ name := field, kind := some .boolean, required := false }]
      (config.flag field default) := by
  refine Reports.of_field rfl ?_
  have hname := h.qualified field
  unfold Config.flag get?
  cases hget : Json.field? config.fields field with
  | none => simp [Demand.faultAmong, hget]
  | some value =>
    cases value with
    | string s =>
      simp only [Demand.faultAmong, hget, fits]
      by_cases ht : small s = "true".toList
      · simp only [ht, true_or, decide_true, if_true]
      · by_cases hf : small s = "false".toList
        · rw [if_neg ht, if_pos hf]
          simp [hf]
        · simp only [ht, hf, or_self, decide_false, if_false]
          exact ⟨_, rfl, by rw [Fault.error, hname, shownPath_field]⟩
    | _ => simp [Demand.faultAmong, hget, fits, Fault.error, hname]

theorem Within.reports_optionalPart (h : Within fields names config) (field : String) :
    Reports config.fields (shownPath names)
      [{ name := field, kind := some .object, required := false }]
      (config.optionalPart field) := by
  refine Reports.of_field rfl ?_
  have hname := h.qualified field
  unfold Config.optionalPart get?
  cases hget : Json.field? config.fields field with
  | none => simp [Demand.faultAmong, hget]
  | some value => cases value <;> simp [Demand.faultAmong, hget, fits, Fault.error, hname]

theorem Within.reports_part (h : Within fields names config) (field : String) :
    Reports config.fields (shownPath names)
      [{ name := field, kind := some .object, required := true }]
      (config.part field) := by
  refine Reports.of_field rfl ?_
  have hname := h.qualified field
  unfold Config.part required Config.optionalPart get?
  cases hget : Json.field? config.fields field with
  | none => simp [Demand.faultAmong, hget, Fault.error, hname]
  | some value => cases value <;> simp [Demand.faultAmong, hget, fits, Fault.error, hname]

/-! ## Readers of settings -/

/-- What is asked of credentials; the keys are only read if the kind is `basic`. -/
def credentialDemands : List Demand :=
  [{ name := "type", kind := some .string, required := true },
    { name := "accessKeyId", kind := some .string, required := true },
    { name := "secretAccessKey", kind := some .string, required := true }]

/-- What is asked of the settings of a bucket, its credentials first. -/
def bucketDemands : List Demand :=
  { name := "credentials", kind := some .object, required := false } ::
    (credentialDemands.map (·.under "credentials") ++
      [{ name := "bucket", kind := some .string, required := true },
        { name := "region", kind := some .string, required := false },
        { name := "endpoint", kind := some .string, required := false },
        { name := "multipart", kind := some .boolean, required := false }])

theorem Within.reports_credentials (h : Within fields names config) :
    Reports config.fields (shownPath names) credentialDemands (Credentials.ofConfig config) := by
  refine (h.reports_string "type").bind fun kind _ => ?_
  split
  · refine (h.reports_string "accessKeyId").bind fun accessKeyId _ => ?_
    exact (h.reports_string "secretAccessKey").map (Credentials.basic accessKeyId)
  · exact fun hfield => absurd rfl hfield

theorem Within.reports_bucket (h : Within fields names config) :
    Reports config.fields (shownPath names) bucketDemands (BucketSettings.ofConfig config) := by
  have hrest (credentials : Option Credentials) : Reports config.fields (shownPath names)
      [{ name := "bucket", kind := some .string, required := true },
        { name := "region", kind := some .string, required := false },
        { name := "endpoint", kind := some .string, required := false },
        { name := "multipart", kind := some .boolean, required := false }] (do
      let bucket ← config.string "bucket"
      let region ← config.optionalString "region"
      let endpoint ← config.optionalString "endpoint"
      let multipart ← config.flag "multipart" true
      return (⟨bucket, region, endpoint, multipart, credentials⟩ : BucketSettings)) := by
    refine (h.reports_string "bucket").bind fun bucket _ => ?_
    refine (h.reports_optionalString "region").bind fun region _ => ?_
    refine (h.reports_optionalString "endpoint").bind fun endpoint _ => ?_
    exact (h.reports_flag "multipart" true).bind fun multipart _ => Reports.pure _
  refine (h.reports_optionalPart "credentials").bind fun part hpart => ?_
  cases part with
  | none =>
    have habsent (inner : List (String × Json)) :
        Json.field? config.fields "credentials" ≠ some (.object inner) := by
      intro hget
      simp [Config.optionalPart, get?, hget] at hpart
    have hskip : Reports config.fields (shownPath names)
        (credentialDemands.map (·.under "credentials"))
        (.ok none : Except ConfigError (Option Credentials)) :=
      firstFault?_under_of_absent habsent credentialDemands
    exact hskip.bind fun credentials _ => hrest credentials
  | some part =>
    have hwithin := h.optionalPart hpart
    obtain ⟨inner, hget, rfl⟩ := optionalPart_eq_some.mp hpart
    have hcredentials := Reports.nested hget (hwithin.reports_credentials.map some)
    exact hcredentials.bind fun credentials _ => hrest credentials

/-- What is asked of the settings of a cache; the block for the driver may be of any kind. -/
def cacheDemands : List Demand :=
  [{ name := "name", kind := some .string, required := false },
    { name := "config", kind := none, required := true }]

/-- A demand as the reader of caches shows it: the block for the driver without the way to it. -/
def shownByCache (names : List String) (d : Demand) : String :=
  if d.path = ["config"] then "config" else shownPath names d

theorem Within.reports_cache (h : Within fields names config) :
    Reports config.fields (shownByCache names) cacheDemands (CacheSettings.ofConfig config) := by
  have hname : Reports config.fields (shownByCache names)
      [{ name := "name", kind := some .string, required := false }]
      (config.optionalString "name") := by
    refine (h.reports_optionalString "name").congr fun d hd => ?_
    obtain rfl := List.mem_singleton.mp hd
    rfl
  refine hname.bind fun name _ => Reports.of_field rfl ?_
  unfold get?
  cases hget : Json.field? config.fields "config" with
  | none => exact ⟨.absent, by simp [Demand.faultAmong, hget], rfl⟩
  | some value =>
    cases value with
    | null => exact ⟨.absent, by simp [Demand.faultAmong, hget], rfl⟩
    | _ => simp [Demand.faultAmong, hget, Pure.pure, Except.pure]

/-! ## All readers -/

/-- The readers of configurations. -/
inductive Reader
  | backend
  | string (field : String)
  | optionalString (field : String)
  | flag (field : String) (default : Bool)
  | part (field : String)
  | optionalPart (field : String)
  | directory
  | database
  | credentials
  | bucket
  | cache
deriving DecidableEq, Repr

namespace Reader

/-- What a reader gives. -/
def Value : Reader → Type
  | .backend => String
  | .string _ => String
  | .optionalString _ => Option String
  | .flag _ _ => Bool
  | .part _ => Config
  | .optionalPart _ => Option Config
  | .directory => DirectorySettings
  | .database => DatabaseSettings
  | .credentials => Credentials
  | .bucket => BucketSettings
  | .cache => CacheSettings

/-- What a reader finds in a configuration. -/
def read : (r : Reader) → Config → Except ConfigError r.Value
  | .backend, config => config.backend
  | .string field, config => config.string field
  | .optionalString field, config => config.optionalString field
  | .flag field default, config => config.flag field default
  | .part field, config => config.part field
  | .optionalPart field, config => config.optionalPart field
  | .directory, config => DirectorySettings.ofConfig config
  | .database, config => DatabaseSettings.ofConfig config
  | .credentials, config => Credentials.ofConfig config
  | .bucket, config => BucketSettings.ofConfig config
  | .cache, config => CacheSettings.ofConfig config

/-- What a reader asks, in the order in which it asks. -/
def demands : Reader → List Demand
  | .backend => [{ name := discriminator, kind := some .string, required := true }]
  | .string field => [{ name := field, kind := some .string, required := true }]
  | .optionalString field => [{ name := field, kind := some .string, required := false }]
  | .flag field _ => [{ name := field, kind := some .boolean, required := false }]
  | .part field => [{ name := field, kind := some .object, required := true }]
  | .optionalPart field => [{ name := field, kind := some .object, required := false }]
  | .directory => [{ name := "path", kind := some .string, required := true }]
  | .database => [{ name := "path", kind := some .string, required := true }]
  | .credentials => credentialDemands
  | .bucket => bucketDemands
  | .cache => cacheDemands

/-- A demand as the errors of a reader show it. -/
def shown : Reader → List String → Demand → String
  | .cache => shownByCache
  | _ => shownPath

theorem shown_eq (r : Reader) (names : List String) (d : Demand) : r.shown names d =
    if r = cache ∧ d.path = ["config"] then "config" else dotted (names ++ d.path) := by
  cases r <;> simp [shown, shownByCache, shownPath]

/-- Every reader reports the first demand that is not met. -/
theorem reports (r : Reader) (h : Within fields names config) :
    Reports config.fields (r.shown names) r.demands (r.read config) := by
  cases r with
  | backend => exact h.reports_string discriminator
  | string field => exact h.reports_string field
  | optionalString field => exact h.reports_optionalString field
  | flag field default => exact h.reports_flag field default
  | part field => exact h.reports_part field
  | optionalPart field => exact h.reports_optionalPart field
  | directory => exact (h.reports_string "path").map DirectorySettings.mk
  | database => exact (h.reports_string "path").map DatabaseSettings.mk
  | credentials => exact h.reports_credentials
  | bucket => exact h.reports_bucket
  | cache => exact h.reports_cache

/-- An error that names a field is about the first field at fault, in the order in which the reader
asks, and names the whole way to it from the outermost object. The reader of caches leaves the way
out where the block for the driver is not there. -/
theorem error_names_field (r : Reader) (h : Within fields names config)
    (he : r.read config = .error e) (hfield : errorField? e ≠ none) :
    ∃ d fault, firstFault? config.fields r.demands = some (d, fault) ∧
      e = fault.error
        (if r = cache ∧ d.path = ["config"] then "config" else dotted (names ++ d.path)) := by
  have hreports := r.reports h
  rw [he] at hreports
  obtain ⟨d, fault, hfirst, he⟩ := hreports hfield
  exact ⟨d, fault, hfirst, by rw [he, shown_eq]⟩

/-- A block of a configuration in which the first key of the credentials is missing. -/
def sampleBlock : List (String × Json) :=
  [("credentials", .object [("type", .string "basic")]), ("bucket", .number (.natural 1))]

theorem error_names_field_of_credentials :
    bucket.read ⟨sampleBlock, some "storage"⟩ =
        .error (.missingField "storage.credentials.accessKeyId") ∧
      ∃ d fault, firstFault? sampleBlock bucket.demands = some (d, fault) ∧
        ConfigError.missingField "storage.credentials.accessKeyId" = fault.error
          (if bucket = cache ∧ d.path = ["config"] then "config"
            else dotted (["storage"] ++ d.path)) :=
  have hwithin : Within [("storage", .object sampleBlock)] ["storage"]
      ⟨sampleBlock, some "storage"⟩ := Within.top.part rfl
  ⟨rfl, error_names_field bucket hwithin rfl (by decide)⟩

/-- The reader of caches names a missing block as if it stood in the outermost object. -/
theorem cache_error_leaves_way_out :
    Within [("cache", .object [])] ["cache"] ⟨[], some "cache"⟩ ∧
      firstFault? [] cache.demands =
        some ({ name := "config", kind := none, required := true }, .absent) ∧
      cache.read ⟨[], some "cache"⟩ = .error (.missingField "config") ∧
      "config" ≠ dotted (["cache"] ++ ["config"]) :=
  ⟨Within.top.part rfl, rfl, rfl, by decide⟩

end Reader

end Config

end BlobStore
