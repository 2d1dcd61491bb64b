import BlobStore.Proofs.Config
import Mathlib.Data.List.Forall2

/-!
# What the settings of a bucket are read from

The settings of a bucket are read from eight fields, three of them in a block of their own. Some
must be there, some may be missing or null; a truth value may be written as a word in any case.
Everything else is an error about the first field, in the order in which they are read, that is not
as it must be. The order is that of the reader, not that of the settings: the block comes first.

## Main definitions

* `Config.Spells`, `Config.Lacks`, `Config.HoldsFlag`: what a field can hold
* `BucketSettings.Documented`: the configurations that settings can be read from
* `BucketSettings.Carries`: the settings that are read
* `BucketSettings.firstOffence?`: the error about the first field that is not as it must be

## Main results

* `Config.small_eq_iff`: words in any case
* `BucketSettings.ofConfig_eq_ok`, `BucketSettings.error?_ofConfig`: either outcome
* `BucketSettings.accepts_exactly`: what is accepted, what is read, and what is reported
-/

namespace BlobStore

namespace Config

variable {config : Config} {field word text : String} {letter c : Char}

/-! ## Words in any case -/

/-- A text is a word in small letters, except that any of the letters may be a capital. -/
def Spells (word text : String) : Prop :=
  List.Forall₂ (fun letter c => c = letter ∨ c = letter.toUpper) word.toList text.toList

theorem toLower_eq_iff (h : letter.isLower) :
    c.toLower = letter ↔ c = letter ∨ c = letter.toUpper := by
  -- in numbers, a capital is 32 below its small letter, and neither range meets the other
  have hA : 'A'.val = 65 := rfl
  have hZ : 'Z'.val = 90 := rfl
  have ha : 'a'.val = 97 := rfl
  have hz : 'z'.val = 122 := rfl
  unfold Char.isLower at h
  simp only [Bool.and_eq_true, decide_eq_true_eq, ha, hz] at h
  obtain ⟨hlow, hhigh⟩ := h
  have hupper : letter.toUpper.val = letter.val - 32 := by
    unfold Char.toUpper
    simp only [ha, hz, hA]
    rw [dif_pos ⟨hlow, hhigh⟩]
    show letter.val + (65 - 97) = letter.val - 32
    grind
  simp only [Char.ext_iff, hupper]
  unfold Char.toLower
  split
  · rename_i hc
    simp only [hA, hZ] at hc
    show c.val + 32 = letter.val ↔ _
    grind
  · rename_i hc
    simp only [hA, hZ] at hc
    grind

/-- The reader makes capitals small; what comes of it is a word if the text spells it. -/
theorem small_eq_iff (h : ∀ letter ∈ word.toList, letter.isLower) :
    small text = word.toList ↔ Spells word text := by
  unfold small Spells
  generalize word.toList = letters at h
  generalize text.toList = chars
  induction letters generalizing chars with
  | nil => simp
  | cons letter rest ih =>
    have hrest := ih fun other hother => h other (List.mem_cons_of_mem letter hother)
    cases chars with
    | nil => simp
    | cons c chars =>
      simp [hrest, toLower_eq_iff (h letter List.mem_cons_self)]

/-! ## What a field holds -/

/-- A field that is not there, or holds null. -/
def Lacks (config : Config) (field : String) : Prop :=
  config.get? field = none ∨ config.get? field = some .null

/-- A field that holds a string, or need not be there. -/
def HoldsOptional (config : Config) (field : String) : Option String → Prop
  | some s => config.get? field = some (.string s)
  | none => config.Lacks field

/-- A field that holds a truth value, or the word for it. -/
def HoldsFlag (config : Config) (field : String) (b : Bool) : Prop :=
  config.get? field = some (.boolean b) ∨
    ∃ s, config.get? field = some (.string s) ∧ Spells (if b then "true" else "false") s

theorem optionalString_eq_ok {value : Option String} :
    config.optionalString field = .ok value ↔ config.HoldsOptional field value := by
  unfold optionalString
  split <;> cases value <;> simp_all [HoldsOptional, Lacks]

theorem required_eq_ok {α : Type} {x : Except ConfigError (Option α)} {a : α} :
    config.required field x = .ok a ↔ x = .ok (some a) := by
  unfold required
  split <;> simp_all

theorem string_eq_ok {s : String} :
    config.string field = .ok s ↔ config.get? field = some (.string s) :=
  required_eq_ok.trans optionalString_eq_ok

theorem optionalPart_eq_none : config.optionalPart field = .ok none ↔ config.Lacks field := by
  unfold optionalPart
  split <;> simp_all [Lacks]

/-- A string is read as a truth value if it spells the word for it. -/
theorem flag_string_eq_ok {default b : Bool} {s : String}
    (hget : config.get? field = some (.string s)) :
    config.flag field default = .ok b ↔ small s = (if b then "true" else "false").toList := by
  unfold flag
  rw [hget]
  dsimp only
  split
  case isTrue ht =>
    rw [ht]
    cases b <;> decide
  case isFalse ht =>
    split
    case isTrue hf =>
      rw [hf]
      cases b <;> decide
    case isFalse hf => cases b <;> simp only [reduceCtorEq, false_iff] <;> assumption

theorem flag_eq_ok {default b : Bool} : config.flag field default = .ok b ↔
    config.Lacks field ∧ b = default ∨ config.HoldsFlag field b := by
  have hword : ∀ s, Spells (if b then "true" else "false") s ↔
      small s = (if b then "true" else "false").toList := by
    intro s
    have hlower : ∀ letter ∈ (if b then "true" else "false").toList, letter.isLower := by
      cases b <;> exact List.all_eq_true.mp rfl
    exact (small_eq_iff hlower).symm
  unfold Lacks HoldsFlag
  cases hget : config.get? field with
  | none => simp [flag, hget, eq_comm]
  | some value =>
    cases value with
    | string s => simp [flag_string_eq_ok hget, hword]
    | null | boolean _ | number _ | array _ | object _ => simp [flag, hget, eq_comm]

theorem bind_eq_ok {α β : Type} {x : Except ConfigError α} {f : α → Except ConfigError β} {b : β} :
    x >>= f = .ok b ↔ ∃ a, x = .ok a ∧ f a = .ok b := by
  cases x with
  | ok a =>
    show f a = .ok b ↔ _
    simp
  | error e =>
    show Except.error e = .ok b ↔ _
    simp

theorem map_eq_ok {α β : Type} {x : Except ConfigError α} {f : α → β} {b : β} :
    x.map f = .ok b ↔ ∃ a, x = .ok a ∧ f a = b := by
  cases x <;> simp [Except.map]

/-! ## What is documented of a field -/

theorem exists_holdsOptional : (∃ value, config.HoldsOptional field value) ↔
    config.Lacks field ∨ ∃ s, config.get? field = some (.string s) := by
  simp only [Option.exists, HoldsOptional]

theorem exists_holdsFlag {default : Bool} :
    (∃ b, config.Lacks field ∧ b = default ∨ config.HoldsFlag field b) ↔
      config.Lacks field ∨ (∃ b, config.get? field = some (.boolean b)) ∨
        ∃ s, config.get? field = some (.string s) ∧ (Spells "true" s ∨ Spells "false" s) := by
  constructor
  · rintro ⟨b, ⟨hlacks, -⟩ | hb | ⟨s, hs, hspells⟩⟩
    · exact Or.inl hlacks
    · exact Or.inr (Or.inl ⟨b, hb⟩)
    · cases b with
      | true => exact Or.inr (Or.inr ⟨s, hs, Or.inl hspells⟩)
      | false => exact Or.inr (Or.inr ⟨s, hs, Or.inr hspells⟩)
  · rintro (hlacks | ⟨b, hb⟩ | ⟨s, hs, htrue | hfalse⟩)
    · exact ⟨default, Or.inl ⟨hlacks, rfl⟩⟩
    · exact ⟨b, Or.inr (Or.inl hb)⟩
    · exact ⟨true, Or.inr (Or.inr ⟨s, hs, htrue⟩)⟩
    · exact ⟨false, Or.inr (Or.inr ⟨s, hs, hfalse⟩)⟩

end Config

/-! ## What is read -/

open Config (Spells)

/-- The fields of credentials hold what is read from them. -/
def Credentials.Carries (fields : List (String × Json)) : Credentials → Prop
  | .basic accessKeyId secretAccessKey =>
    Json.field? fields "type" = some (.string "basic") ∧
      Json.field? fields "accessKeyId" = some (.string accessKeyId) ∧
      Json.field? fields "secretAccessKey" = some (.string secretAccessKey)

theorem Credentials.ofConfig_eq_ok {config : Config} {credentials : Credentials} :
    Credentials.ofConfig config = .ok credentials ↔ credentials.Carries config.fields := by
  obtain ⟨accessKeyId, secretAccessKey⟩ := credentials
  unfold Credentials.ofConfig Carries
  rw [Config.bind_eq_ok]
  constructor
  · rintro ⟨kind, hkind, h⟩
    split at h
    · rename_i hbasic
      subst hbasic
      obtain ⟨foundId, hid, h⟩ := Config.bind_eq_ok.mp h
      obtain ⟨foundSecret, hsecret, h⟩ := Config.bind_eq_ok.mp h
      cases h
      exact ⟨Config.string_eq_ok.mp hkind, Config.string_eq_ok.mp hid,
        Config.string_eq_ok.mp hsecret⟩
    · cases h
  · rintro ⟨htype, hid, hsecret⟩
    refine ⟨"basic", Config.string_eq_ok.mpr htype, ?_⟩
    rw [if_pos rfl]
    refine Config.bind_eq_ok.mpr ⟨accessKeyId, Config.string_eq_ok.mpr hid, ?_⟩
    exact Config.bind_eq_ok.mpr ⟨secretAccessKey, Config.string_eq_ok.mpr hsecret, rfl⟩

namespace BucketSettings

variable {config : Config} {settings : BucketSettings}

/-- A configuration holds these settings: each field what is read from it. -/
structure Carries (config : Config) (settings : BucketSettings) : Prop where
  bucket : config.get? "bucket" = some (.string settings.bucket)
  region : config.HoldsOptional "region" settings.region
  endpoint : config.HoldsOptional "endpoint" settings.endpoint
  multipart : config.Lacks "multipart" ∧ settings.multipart = true ∨
    config.HoldsFlag "multipart" settings.multipart
  credentials : match settings.credentials with
    | none => config.Lacks "credentials"
    | some credentials => ∃ inner,
      config.get? "credentials" = some (.object inner) ∧ credentials.Carries inner

/-- What is documented of the settings of a bucket. -/
structure Documented (config : Config) : Prop where
  bucket : ∃ s, config.get? "bucket" = some (.string s)
  region : config.Lacks "region" ∨ ∃ s, config.get? "region" = some (.string s)
  endpoint : config.Lacks "endpoint" ∨ ∃ s, config.get? "endpoint" = some (.string s)
  multipart : config.Lacks "multipart" ∨ (∃ b, config.get? "multipart" = some (.boolean b)) ∨
    ∃ s, config.get? "multipart" = some (.string s) ∧ (Spells "true" s ∨ Spells "false" s)
  credentials : config.Lacks "credentials" ∨ ∃ inner,
    config.get? "credentials" = some (.object inner) ∧
      Json.field? inner "type" = some (.string "basic") ∧
      (∃ s, Json.field? inner "accessKeyId" = some (.string s)) ∧
      ∃ s, Json.field? inner "secretAccessKey" = some (.string s)

/-- The credentials, if there is a block for them. -/
def block (config : Config) : Except ConfigError (Option Credentials) :=
  config.optionalPart "credentials" >>= fun
    | some part => (Credentials.ofConfig part).map some
    | none => .ok none

/-- The other fields, which are read after the block. -/
def others (config : Config) (credentials : Option Credentials) :
    Except ConfigError BucketSettings := do
  let bucket ← config.string "bucket"
  let region ← config.optionalString "region"
  let endpoint ← config.optionalString "endpoint"
  let multipart ← config.flag "multipart" true
  return ⟨bucket, region, endpoint, multipart, credentials⟩

theorem ofConfig_eq (config : Config) : ofConfig config = block config >>= others config := by
  unfold ofConfig block
  rcases config.optionalPart "credentials" with e | _ | part <;> rfl

theorem block_eq_ok {credentials? : Option Credentials} : block config = .ok credentials? ↔
    match credentials? with
    | none => config.Lacks "credentials"
    | some credentials => ∃ inner,
      config.get? "credentials" = some (.object inner) ∧ credentials.Carries inner := by
  unfold block
  rw [Config.bind_eq_ok]
  constructor
  · rintro ⟨_ | part, hpart, h⟩
    · cases h
      exact Config.optionalPart_eq_none.mp hpart
    · obtain ⟨credentials, hcredentials, rfl⟩ := Config.map_eq_ok.mp h
      obtain ⟨inner, hinner, rfl⟩ := Config.optionalPart_eq_some.mp hpart
      exact ⟨inner, hinner, Credentials.ofConfig_eq_ok.mp hcredentials⟩
  · cases credentials? with
    | none => exact fun hlacks => ⟨none, Config.optionalPart_eq_none.mpr hlacks, rfl⟩
    | some credentials =>
      rintro ⟨inner, hinner, hcarries⟩
      refine ⟨_, Config.optionalPart_eq_some.mpr ⟨inner, hinner, rfl⟩, ?_⟩
      exact Config.map_eq_ok.mpr ⟨credentials, Credentials.ofConfig_eq_ok.mpr hcarries, rfl⟩

theorem others_eq_ok {credentials : Option Credentials} :
    others config credentials = .ok settings ↔
      config.get? "bucket" = some (.string settings.bucket) ∧
      config.HoldsOptional "region" settings.region ∧
      config.HoldsOptional "endpoint" settings.endpoint ∧
      (config.Lacks "multipart" ∧ settings.multipart = true ∨
        config.HoldsFlag "multipart" settings.multipart) ∧
      settings.credentials = credentials := by
  unfold others
  simp only [Config.bind_eq_ok, Config.string_eq_ok, Config.optionalString_eq_ok,
    Config.flag_eq_ok]
  constructor
  · rintro ⟨bucket, hbucket, region, hregion, endpoint, hendpoint, multipart, hmultipart, h⟩
    cases h
    exact ⟨hbucket, hregion, hendpoint, hmultipart, rfl⟩
  · rintro ⟨hbucket, hregion, hendpoint, hmultipart, rfl⟩
    exact ⟨_, hbucket, _, hregion, _, hendpoint, _, hmultipart, rfl⟩

theorem ofConfig_eq_ok : ofConfig config = .ok settings ↔ Carries config settings := by
  rw [ofConfig_eq, Config.bind_eq_ok]
  simp only [block_eq_ok, others_eq_ok]
  constructor
  · rintro ⟨credentials, hblock, hbucket, hregion, hendpoint, hmultipart, rfl⟩
    exact ⟨hbucket, hregion, hendpoint, hmultipart, hblock⟩
  · rintro ⟨hbucket, hregion, hendpoint, hmultipart, hblock⟩
    exact ⟨settings.credentials, hblock, hbucket, hregion, hendpoint, hmultipart, rfl⟩

/-- What is documented is that some settings can be read. -/
theorem documented_iff : Documented config ↔ ∃ settings, Carries config settings := by
  constructor
  · rintro ⟨⟨bucket, hbucket⟩, hregion, hendpoint, hmultipart, hcredentials⟩
    obtain ⟨region, hregion⟩ := Config.exists_holdsOptional.mpr hregion
    obtain ⟨endpoint, hendpoint⟩ := Config.exists_holdsOptional.mpr hendpoint
    obtain ⟨multipart, hmultipart⟩ := Config.exists_holdsFlag.mpr hmultipart
    obtain hlacks | ⟨inner, hinner, htype, ⟨accessKeyId, hid⟩, secretAccessKey, hsecret⟩ :=
      hcredentials
    · exact ⟨⟨bucket, region, endpoint, multipart, none⟩, hbucket, hregion, hendpoint, hmultipart,
        hlacks⟩
    · exact ⟨⟨bucket, region, endpoint, multipart, some (.basic accessKeyId secretAccessKey)⟩,
        hbucket, hregion, hendpoint, hmultipart, inner, hinner, htype, hid, hsecret⟩
  · rintro ⟨⟨bucket, region, endpoint, multipart, credentials⟩, hbucket, hregion, hendpoint,
      hmultipart, hcredentials⟩
    refine ⟨⟨bucket, hbucket⟩, Config.exists_holdsOptional.mp ⟨region, hregion⟩,
      Config.exists_holdsOptional.mp ⟨endpoint, hendpoint⟩,
      Config.exists_holdsFlag.mp ⟨multipart, hmultipart⟩, ?_⟩
    cases credentials with
    | none => exact Or.inl hcredentials
    | some credentials =>
      obtain ⟨accessKeyId, secretAccessKey⟩ := credentials
      obtain ⟨inner, hinner, htype, hid, hsecret⟩ := hcredentials
      exact Or.inr ⟨inner, hinner, htype, ⟨accessKeyId, hid⟩, secretAccessKey, hsecret⟩

end BucketSettings

/-! ## What is reported -/

namespace Config

/-- The error of a computation that fails. -/
def error? {α : Type} : Except ConfigError α → Option ConfigError
  | .ok _ => none
  | .error e => some e

theorem error?_eq_some {α : Type} {x : Except ConfigError α} {e : ConfigError} :
    error? x = some e ↔ x = .error e := by
  cases x <;> simp [error?]

theorem error?_map {α β : Type} (x : Except ConfigError α) (f : α → β) :
    error? (x.map f) = error? x := by
  cases x <;> rfl

/-- The error about a field that falls short of a demand: a field that is not there is missing, and
any other is invalid. It is named with the whole way to it. -/
def Demand.error? (d : Demand) (config : Config) : Option ConfigError :=
  (d.fault? config.fields).map (Fault.error (config.qualified (dotted d.path)))

theorem Demand.error?_field (config : Config) (field : String) (kind : FieldKind)
    (required : Bool) :
    Demand.error? { name := field, kind := some kind, required } config =
      match config.get? field with
      | none | some .null =>
        if required then some (.missingField (config.qualified field)) else none
      | some value =>
        if fits kind value then none else some (.invalidField (config.qualified field) kind) := by
  unfold Demand.error? get?
  simp only [fault?, follow?, Option.bind_some, faultAmong, path, List.nil_append, dotted]
  cases Json.field? config.fields field with
  | none => cases required <;> rfl
  | some value =>
    cases value with
    | null => cases required <;> rfl
    | boolean _ | number _ | string _ | array _ | object _ =>
      dsimp only
      split <;> rfl

/-- A block reports a fault of its own as the configuration that holds it does. -/
theorem Demand.error?_under {inner : List (String × Json)} {name : String}
    (h : config.get? name = some (.object inner)) (d : Demand) :
    (d.under name).error? config = d.error? ⟨inner, some (config.qualified name)⟩ := by
  have hway : config.qualified (dotted (d.under name).path) =
      Config.qualified ⟨inner, some (config.qualified name)⟩ (dotted d.path) := by
    have hdotted : dotted (d.under name).path = name ++ "." ++ dotted d.path := by
      obtain ⟨first, rest, hpath⟩ : ∃ first rest, d.path = first :: rest :=
        List.exists_cons_of_ne_nil (by simp [path])
      show dotted (name :: d.path) = _
      rw [hpath]
      rfl
    rw [hdotted]
    unfold Config.qualified
    cases config.path <;> simp only [String.append_assoc]
  unfold Demand.error?
  rw [fault?_under d h, hway]

theorem error?_optionalString (config : Config) (field : String) :
    error? (config.optionalString field) =
      Demand.error? { name := field, kind := some .string, required := false } config := by
  rw [Demand.error?_field]
  unfold optionalString
  cases config.get? field with
  | none => rfl
  | some value => cases value <;> rfl

theorem error?_string (config : Config) (field : String) :
    error? (config.string field) =
      Demand.error? { name := field, kind := some .string, required := true } config := by
  rw [Demand.error?_field]
  unfold Config.string required optionalString
  cases config.get? field with
  | none => rfl
  | some value => cases value <;> rfl

theorem error?_optionalPart (config : Config) (field : String) :
    error? (config.optionalPart field) =
      Demand.error? { name := field, kind := some .object, required := false } config := by
  rw [Demand.error?_field]
  unfold optionalPart
  cases config.get? field with
  | none => rfl
  | some value => cases value <;> rfl

theorem error?_flag (config : Config) (field : String) (default : Bool) :
    error? (config.flag field default) =
      Demand.error? { name := field, kind := some .boolean, required := false } config := by
  rw [Demand.error?_field]
  unfold flag
  cases config.get? field with
  | none => rfl
  | some value =>
    cases value with
    | string s =>
      simp only [fits, decide_eq_true_eq]
      by_cases ht : small s = "true".toList
      · simp only [ht, true_or, if_true, error?]
      · by_cases hf : small s = "false".toList
        · simp only [hf, or_true, if_true, error?]
          rfl
        · simp only [ht, hf, or_self, if_false, error?]
    | null | boolean _ | number _ | array _ | object _ => rfl

end Config

/-- The type of credentials, which must be the one that there is. -/
def Credentials.known (config : Config) : Except ConfigError Unit :=
  config.string "type" >>= fun kind =>
    if kind = "basic" then .ok () else .error (.unsupportedCredentials kind)

theorem Credentials.ofConfig_eq (config : Config) :
    Credentials.ofConfig config = Credentials.known config >>= fun _ => do
      let accessKeyId ← config.string "accessKeyId"
      let secretAccessKey ← config.string "secretAccessKey"
      return .basic accessKeyId secretAccessKey := by
  unfold Credentials.ofConfig known
  rcases config.string "type" with e | kind
  · rfl
  · by_cases hkind : kind = "basic"
    · subst hkind
      rfl
    · show (if kind = "basic" then _ else _) = (if kind = "basic" then _ else _) >>= _
      rw [if_neg hkind, if_neg hkind]
      rfl

open Config (error? Demand bucketDemands credentialDemands)

namespace BucketSettings

variable {config : Config} {inner : List (String × Json)}

/-- What is asked of the type of credentials. -/
def typeDemand : Demand := { name := "type", kind := some .string, required := true }

/-- The type of credentials, if it is a string other than the one type there is. -/
def foreignKind? (config : Config) : Option String :=
  match config.get? "credentials" with
  | some (.object inner) =>
    match Json.field? inner "type" with
    | some (.string kind) => if kind = "basic" then none else some kind
    | _ => none
  | _ => none

/-- The error about a field of the settings that is not as it must be. -/
def offence? (config : Config) (d : Demand) : Option ConfigError :=
  match d.error? config with
  | some e => some e
  | none =>
    if d.path = ["credentials", "type"] then
      (foreignKind? config).map ConfigError.unsupportedCredentials
    else none

/-- The error about the first field that is not as it must be, the block of credentials first, then
the fields in it, and then the others. -/
def firstOffence? (config : Config) : Option ConfigError :=
  bucketDemands.findSome? (offence? config)

/-- A computation fails at the first offence to some demands. -/
def FailsBy {α : Type} (config : Config) (demands : List Demand) (x : Except ConfigError α) :
    Prop :=
  error? x = demands.findSome? (offence? config)

namespace FailsBy

variable {α β : Type} {demands later : List Demand} {x : Except ConfigError α}
  {f : α → Except ConfigError β}

theorem bind (h : FailsBy config demands x) (hf : ∀ a, x = .ok a → FailsBy config later (f a)) :
    FailsBy config (demands ++ later) (x >>= f) := by
  unfold FailsBy at h hf ⊢
  rw [List.findSome?_append, ← h]
  cases x with
  | ok a => exact hf a rfl
  | error e => rfl

theorem map (h : FailsBy config demands x) (f : α → β) : FailsBy config demands (x.map f) :=
  (Config.error?_map x f).trans h

theorem one {d : Demand} (h : error? x = offence? config d) : FailsBy config [d] x := by
  unfold FailsBy
  rw [h, List.findSome?_cons]
  cases offence? config d <;> rfl

/-- Of most fields nothing is asked that is no demand. -/
theorem field {d : Demand} (h : error? x = d.error? config)
    (hd : d.path ≠ ["credentials", "type"]) : FailsBy config [d] x := by
  apply one
  rw [h, offence?, if_neg hd]
  cases d.error? config <;> rfl

/-- So it is with those in the block. -/
theorem nested {d : Demand} (hget : config.get? "credentials" = some (.object inner))
    (h : error? x = d.error? ⟨inner, some (config.qualified "credentials")⟩)
    (hd : d.path ≠ ["type"]) : FailsBy config [d.under "credentials"] x := by
  refine field (h.trans (Demand.error?_under hget d).symm) ?_
  intro hpath
  exact hd (List.cons.inj hpath).2

end FailsBy

/-- The type of credentials offends if it is no string, and if it is another string. -/
theorem offence?_type (hget : config.get? "credentials" = some (.object inner)) :
    offence? config (typeDemand.under "credentials") =
      error? (Credentials.known ⟨inner, some (config.qualified "credentials")⟩) := by
  have herror : typeDemand.error? ⟨inner, some (config.qualified "credentials")⟩ =
      error? (Config.string ⟨inner, some (config.qualified "credentials")⟩ "type") :=
    (Config.error?_string _ "type").symm
  have hpath : (typeDemand.under "credentials").path = ["credentials", "type"] := rfl
  unfold offence? Credentials.known
  rw [Demand.error?_under hget, herror, if_pos hpath]
  rcases hkind : Config.string ⟨inner, some (config.qualified "credentials")⟩ "type" with e | kind
  · rfl
  · have htype : Json.field? inner "type" = some (.string kind) := Config.string_eq_ok.mp hkind
    have hforeign : foreignKind? config = if kind = "basic" then none else some kind := by
      simp only [foreignKind?, hget, htype]
    rw [hforeign]
    show (if kind = "basic" then none else some kind).map ConfigError.unsupportedCredentials =
      error? (if kind = "basic" then Except.ok () else .error (.unsupportedCredentials kind))
    by_cases hbasic : kind = "basic"
    · simp only [hbasic, if_true, Option.map_none, error?]
    · simp only [hbasic, if_false, Option.map_some, error?]

theorem failsBy_credentials (hget : config.get? "credentials" = some (.object inner)) :
    FailsBy config (credentialDemands.map (·.under "credentials"))
      (Credentials.ofConfig ⟨inner, some (config.qualified "credentials")⟩) := by
  rw [Credentials.ofConfig_eq]
  have hkind := FailsBy.one (offence?_type hget).symm
  have hid := FailsBy.nested hget (Config.error?_string _ "accessKeyId") (by decide)
  have hsecret := FailsBy.nested hget (Config.error?_string _ "secretAccessKey") (by decide)
  exact hkind.bind fun _ _ => hid.bind fun accessKeyId _ => hsecret.bind fun _ _ => rfl

/-- No fault is found in a block that is not there. -/
theorem offence?_under_of_lacks (hlacks : config.Lacks "credentials") (d : Demand) :
    offence? config (d.under "credentials") = none := by
  have hfollow : Demand.follow? config.fields (d.under "credentials").block = none := by
    obtain hget | hget := hlacks
    all_goals
      unfold Config.get? at hget
      simp only [Demand.under, Demand.follow?, hget]
  have hforeign : foreignKind? config = none := by
    obtain hget | hget := hlacks
    all_goals simp only [foreignKind?, hget]
  simp [offence?, Demand.error?, Demand.fault?, hfollow, hforeign]

theorem failsBy_block (config : Config) :
    FailsBy config ({ name := "credentials", kind := some .object, required := false } ::
      credentialDemands.map (·.under "credentials")) (block config) := by
  have hpart := FailsBy.field (config.error?_optionalPart "credentials") (by decide)
  refine hpart.bind fun part hpart => ?_
  cases part with
  | none =>
    have hlacks := Config.optionalPart_eq_none.mp hpart
    refine (List.findSome?_eq_none_iff.mpr fun d hd => ?_).symm
    obtain ⟨d, -, rfl⟩ : ∃ other ∈ credentialDemands, other.under "credentials" = d :=
      List.mem_map.mp hd
    exact offence?_under_of_lacks hlacks d
  | some part =>
    obtain ⟨inner, hget, rfl⟩ := Config.optionalPart_eq_some.mp hpart
    exact (failsBy_credentials hget).map some

theorem failsBy_others (config : Config) (credentials : Option Credentials) :
    FailsBy config
      [{ name := "bucket", kind := some .string, required := true },
        { name := "region", kind := some .string, required := false },
        { name := "endpoint", kind := some .string, required := false },
        { name := "multipart", kind := some .boolean, required := false }]
      (others config credentials) := by
  have hbucket := FailsBy.field (config.error?_string "bucket") (by decide)
  have hregion := FailsBy.field (config.error?_optionalString "region") (by decide)
  have hendpoint := FailsBy.field (config.error?_optionalString "endpoint") (by decide)
  have hmultipart := FailsBy.field (config.error?_flag "multipart" true) (by decide)
  exact hbucket.bind fun bucket _ => hregion.bind fun region _ => hendpoint.bind fun endpoint _ =>
    hmultipart.bind fun multipart _ => rfl

theorem error?_ofConfig (config : Config) : error? (ofConfig config) = firstOffence? config := by
  rw [ofConfig_eq]
  exact (failsBy_block config).bind fun credentials _ => failsBy_others config credentials

/-- **Settings of a bucket.** They can be read from the documented configurations and from no
others. What is read is what the fields hold, with uploads in parts unless they are turned off. What
is reported otherwise is the error about the first field at fault, of the credentials before the
bucket: one that is not there is missing, a type of credentials that is another string is
unsupported, and all else is invalid. -/
theorem accepts_exactly (config : Config) :
    ((∃ settings, ofConfig config = .ok settings) ↔ Documented config) ∧
      (∀ settings, ofConfig config = .ok settings ↔ Carries config settings) ∧
      ∀ e, ofConfig config = .error e ↔ firstOffence? config = some e := by
  refine ⟨?_, fun settings => ofConfig_eq_ok, fun e => ?_⟩
  · rw [documented_iff]
    exact exists_congr fun settings => ofConfig_eq_ok
  · rw [← error?_ofConfig, Config.error?_eq_some]

/-- A word in capitals is read; credentials of a kind that there is not are reported first. -/
example :
    ofConfig ⟨[("multipart", .string "FALSE"), ("bucket", .string "b")], none⟩ =
        .ok ⟨"b", none, none, false, none⟩ ∧
      ofConfig ⟨[("bucket", .null), ("credentials", .object [("type", .string "role")])], none⟩ =
        .error (.unsupportedCredentials "role") := ⟨rfl, rfl⟩

end BucketSettings

end BlobStore
