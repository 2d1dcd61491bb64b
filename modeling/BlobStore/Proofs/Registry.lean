import BlobStore.Proofs.Config.Bucket
import BlobStore.World
import Mathlib.Data.List.Forall2
import Mathlib.Data.List.Induction
import Mathlib.Data.String.Basic

/-!
# Registries, and copies of them

A program registers factories, copies registries, and creates storages through any of them, through
the one that all its parts share as well. What a registry answers depends on nothing but what was
registered with it, and with the one that it was copied from before that. Of several factories under
one name the last one counts. The table of a registry has no order, but its names are shown in one.

## Main definitions

* `Registry.latest`: the factory that was registered last under a name
* `Registry.Answers`: what a registry answers after some registrations
* `Registries`, `RegistryDeed`: the registries of a program, and what can be done with them
* `RegistryDeed.record`: what is registered with each of them, from the deeds alone
* `RegistryDeed.Reports`: the events for a deed

## Main results

* `Registry.names_pairwise`: names are shown in ascending order, whatever the table is
* `Registry.Holds.register`, `Registry.Holds.answers`: one registration, and the answers after some
* `Registries.Keeps.act`, `Registries.Keeps.run`: registries go by their records
* `Registries.answer_throughout`: all registries of a program, after any deeds
-/

namespace BlobStore

namespace Registry

variable {ω : Type} {registry : Registry ω} {registered factories : List (String × Factory ω)}
  {name other : String} {factory : Factory ω} {config : Config}

/-! ## The names of a table -/

theorem mem_names : name ∈ registry.names ↔ name ∈ registry.factories := by
  unfold names
  rw [List.mem_mergeSort]
  exact Std.HashMap.mem_keys

theorem contains_iff : registry.contains name = true ↔ name ∈ registry.names :=
  Std.HashMap.contains_iff_mem.trans mem_names.symm

/-- The names are ascending: they are put in order, and no table has a name twice. -/
theorem names_pairwise (registry : Registry ω) : registry.names.Pairwise (· < ·) := by
  have hsorted : registry.names.Pairwise fun a b => decide (a ≤ b) = true := by
    apply List.pairwise_mergeSort
    · intro a b c hab hbc
      rw [decide_eq_true_eq] at hab hbc ⊢
      exact le_trans hab hbc
    · intro a b
      rw [Bool.or_eq_true, decide_eq_true_eq, decide_eq_true_eq]
      exact le_total a b
  have hnodup : registry.names.Nodup :=
    (List.mergeSort_perm registry.factories.keys _).nodup_iff.mpr Std.HashMap.nodup_keys
  exact hsorted.imp₂ (fun a b hle hne => lt_of_le_of_ne (of_decide_eq_true hle) hne) hnodup

/-! ## Registrations -/

/-- The factory that was registered last under a name. -/
def latest (registered : List (String × Factory ω)) (name : String) : Option (Factory ω) :=
  registered.reverse.lookup name

@[simp] theorem latest_nil (name : String) :
    latest ([] : List (String × Factory ω)) name = none := rfl

theorem latest_concat (registered : List (String × Factory ω)) (other : String)
    (factory : Factory ω) (name : String) :
    latest (registered ++ [(other, factory)]) name =
      if other = name then some factory else latest registered name := by
  unfold latest
  rw [List.reverse_concat, List.lookup_cons]
  split
  · rename_i h
    rw [if_pos (beq_iff_eq.mp h).symm]
  · rename_i h
    rw [if_neg (Ne.symm (beq_eq_false_iff_ne.mp h))]

theorem isSome_latest : (latest registered name).isSome ↔ name ∈ registered.map (·.1) := by
  induction registered using List.reverseRecOn with
  | nil => simp
  | append_singleton registered last ih =>
    obtain ⟨other, factory⟩ := last
    rw [latest_concat, List.map_append, List.mem_append, ← ih]
    by_cases h : other = name
    · simp [h]
    · simp [h, Ne.symm h]

/-- The table of a registry holds the factory that was registered last under each name. -/
def Holds (registry : Registry ω) (registered : List (String × Factory ω)) : Prop :=
  ∀ name, registry.factories[name]? = latest registered name

theorem holds_empty : (empty : Registry ω).Holds [] := fun _ => Std.HashMap.getElem?_empty

theorem Holds.register (h : registry.Holds registered) (name : String) (factory : Factory ω) :
    (registry.register name factory).2.Holds (registered ++ [(name, factory)]) := by
  intro other
  rw [latest_concat, ← h other]
  show (registry.factories.insert name factory)[other]? = _
  rw [Std.HashMap.getElem?_insert]
  simp only [beq_iff_eq]

theorem Holds.registerAll (h : registry.Holds registered) (factories : List (String × Factory ω)) :
    (registry.registerAll factories).2.Holds (registered ++ factories) := by
  induction factories generalizing registry registered with
  | nil =>
    rw [List.append_nil]
    exact h
  | cons first rest ih =>
    obtain ⟨name, factory⟩ := first
    have hrest := ih (h.register name factory)
    rw [List.append_assoc] at hrest
    exact hrest

theorem holds_of (factories : List (String × Factory ω)) : (of factories).Holds factories :=
  holds_empty.registerAll factories

theorem Holds.mem_names (h : registry.Holds registered) :
    name ∈ registry.names ↔ name ∈ registered.map (·.1) := by
  rw [Registry.mem_names, Std.HashMap.mem_iff_isSome_getElem?, h name, isSome_latest]

/-! ## Events -/

/-- What is reported of a factory that took the place of another one. -/
def replacement (name : String) : Event :=
  report .warn "storage factory replaced" [("backend", name)]

/-- What is reported of a storage that was created. -/
def creation (name : String) (storage : Storage ω) : Event :=
  report .debug "storage created" [("backend", name), ("storage", storage.identifier)]

theorem events_register (registry : Registry ω) (name : String) (factory : Factory ω) :
    (registry.register name factory).1 =
      if name ∈ registry.names then [replacement name] else [] := by
  unfold register
  exact if_congr contains_iff rfl rfl

/-- Under names that were not there before, and are all different, nothing is replaced. -/
theorem Holds.events_registerAll (h : registry.Holds registered)
    (hn : ((registered ++ factories).map (·.1)).Nodup) :
    (registry.registerAll factories).1 = [] := by
  induction factories generalizing registry registered with
  | nil => rfl
  | cons first rest ih =>
    obtain ⟨name, factory⟩ := first
    have hnew : name ∉ registry.names := by
      rw [h.mem_names]
      intro hmem
      rw [List.map_append, List.nodup_append] at hn
      exact hn.2.2 name hmem name List.mem_cons_self rfl
    have hrest := ih (h.register name factory) (by simpa using hn)
    show (registry.register name factory).1 ++
      ((registry.register name factory).2.registerAll rest).1 = []
    rw [events_register, if_neg hnew, hrest]
    rfl

/-! ## Storages -/

/-- What comes of a factory: a storage is reported once, and a failure is passed on. -/
def made (name : String) : Except StorageError (Storage ω) × ω → Reply (Storage ω) × ω
  | (.ok storage, w) => (⟨.ok storage, [creation name storage]⟩, w)
  | (.error e, w) => (.error e, w)

theorem create_eq (registry : Registry ω) (name : String) (config : Config) (now : Time) (w : ω) :
    registry.create name config now w =
      match registry.factories[name]? with
      | some factory => made name (factory config now w)
      | none => (.error (.config (.unknownBackend name)), w) := by
  unfold create
  rw [Std.HashMap.get?_eq_getElem?]
  cases registry.factories[name]? with
  | none => rfl
  | some factory =>
    simp only
    rcases factory config now w with ⟨_ | _, after⟩ <;> rfl

theorem backend_eq (config : Config) : config.backend =
    match config.get? "type" with
    | none | some .null => .error (.missingField (config.qualified "type"))
    | some (.string name) => .ok name
    | some _ => .error (.invalidField (config.qualified "type") .string) := by
  show config.required "type" (config.optionalString "type") = _
  unfold Config.optionalString
  rcases config.get? "type" with _ | _ | _ | _ | _ | _ | _ <;> rfl

/-- A creation is reported under the name of its backend, and nothing else is. -/
theorem events_create (registry : Registry ω) (name : String) (config : Config) (now : Time)
    (w : ω) : (registry.create name config now w).1.events =
      match (registry.create name config now w).1.result with
      | .ok storage => [creation name storage]
      | .error _ => [] := by
  rw [create_eq]
  cases registry.factories[name]? with
  | none => rfl
  | some factory =>
    show (made name (factory config now w)).1.events =
      match (made name (factory config now w)).1.result with
      | .ok storage => [creation name storage]
      | .error _ => []
    rcases factory config now w with ⟨_ | _, after⟩ <;> rfl

theorem ofConfig_of_ok (h : config.backend = .ok name) (registry : Registry ω) (now : Time)
    (w : ω) : registry.ofConfig config now w = registry.create name config now w := by
  unfold ofConfig
  rw [h]

theorem ofConfig_of_error {e : ConfigError} (h : config.backend = .error e) (registry : Registry ω)
    (now : Time) (w : ω) : registry.ofConfig config now w = (.error (.config e), w) := by
  unfold ofConfig
  rw [h]

theorem backend_eq_ok :
    config.backend = .ok name ↔ config.get? "type" = some (.string name) := by
  rw [backend_eq]
  rcases config.get? "type" with _ | _ | _ | _ | _ | _ | _ <;> simp

/-- A storage that a configuration asks for is reported under the name that the configuration
gives. -/
theorem events_ofConfig (registry : Registry ω) (config : Config) (now : Time) (w : ω) :
    match (registry.ofConfig config now w).1.result with
    | .ok storage => ∃ name, config.get? "type" = some (.string name) ∧
      (registry.ofConfig config now w).1.events = [creation name storage]
    | .error _ => (registry.ofConfig config now w).1.events = [] := by
  cases hname : config.backend with
  | error e =>
    rw [ofConfig_of_error hname]
    rfl
  | ok name =>
    rw [ofConfig_of_ok hname, events_create]
    cases (registry.create name config now w).1.result with
    | error e => rfl
    | ok storage => exact ⟨name, backend_eq_ok.mp hname, rfl⟩

/-! ## Answers -/

/-- What a registry answers after some registrations. -/
structure Answers (registry : Registry ω) (registered : List (String × Factory ω)) : Prop where
  ascending : registry.names.Pairwise (· < ·)
  names : ∀ name, name ∈ registry.names ↔ name ∈ registered.map (·.1)
  contains : ∀ name, registry.contains name = true ↔ name ∈ registry.names
  create : ∀ name config now w, registry.create name config now w =
    match latest registered name with
    | some factory => made name (factory config now w)
    | none => (.error (.config (.unknownBackend name)), w)
  /-- The field `type` is read before anything is looked up. -/
  named : ∀ config name, config.get? "type" = some (.string name) →
    ∀ now w, registry.ofConfig config now w = registry.create name config now w
  unnamed : ∀ config, config.Lacks "type" → ∀ now w, registry.ofConfig config now w =
    (.error (.config (.missingField (config.qualified "type"))), w)
  misnamed : ∀ config value, config.get? "type" = some value → value ≠ .null →
    (∀ name, value ≠ .string name) → ∀ now w, registry.ofConfig config now w =
      (.error (.config (.invalidField (config.qualified "type") .string)), w)

theorem Holds.answers (h : registry.Holds registered) : registry.Answers registered where
  ascending := registry.names_pairwise
  names _ := h.mem_names
  contains _ := contains_iff
  create name config now w := by rw [create_eq, h name]
  named config name hname := ofConfig_of_ok (backend_eq_ok.mpr hname) registry
  unnamed config hlacks := by
    apply ofConfig_of_error
    rcases hlacks with hnone | hnull
    · rw [backend_eq, hnone]
    · rw [backend_eq, hnull]
  misnamed config value hvalue hnull hstring := by
    apply ofConfig_of_error
    rw [backend_eq, hvalue]
    cases value with
    | null => exact absurd rfl hnull
    | string name => exact absurd rfl (hstring name)
    | boolean _ | number _ | array _ | object _ => rfl

end Registry

/-! ## The registries of a program -/

/-- The registries of a program: one that all its parts share, and others, in the order in which
they were made. -/
structure Registries (ω : Type) where
  shared : Registry ω
  others : List (Registry ω) := []
  world : ω

/-- What can be done with the registries of a program. A registry is given by its number, and the
shared one by none; nobody can register anything with that one. -/
inductive RegistryDeed (ω : Type)
  | make
  /-- A registry with the built-in factories is made. -/
  | makeBuiltin
  | copy (which : Option ℕ)
  | register (i : ℕ) (name : String) (factory : Factory ω)
  | create (which : Option ℕ) (name : String) (config : Config) (now : Time)
  | ofConfig (which : Option ℕ) (config : Config) (now : Time)

/-- What comes of a deed: the events, and the storage or the error if one was asked for. -/
structure RegistryAccount (ω : Type) where
  events : List Event := []
  result? : Option (Except StorageError (Storage ω)) := none

namespace Registries

variable {ω : Type} {builtins : List (String × Factory ω)} {p : Registries ω}
  {records : List (List (String × Factory ω))} {registry : Registry ω} {i : ℕ}

/-- A program starts with the shared registry alone. -/
def start (builtins : List (String × Factory ω)) (w : ω) : Registries ω :=
  { shared := .of builtins, world := w }

/-- The shared registry, or another one by its place. -/
def pick (p : Registries ω) : Option ℕ → Option (Registry ω)
  | none => some p.shared
  | some i => p.others[i]?

/-- A storage asked for from one of the registries. -/
def ask (p : Registries ω) (which : Option ℕ)
    (request : Registry ω → ω → Reply (Storage ω) × ω) : RegistryAccount ω × Registries ω :=
  match p.pick which with
  | none => ({}, p)
  | some registry =>
    let (reply, world) := request registry p.world
    ({ events := reply.events, result? := some reply.result }, { p with world })

/-- One deed. Nothing comes of one that is about a registry that is not there. -/
def act (builtins : List (String × Factory ω)) (deed : RegistryDeed ω) (p : Registries ω) :
    RegistryAccount ω × Registries ω :=
  match deed with
  | .make => ({}, { p with others := p.others ++ [.empty] })
  | .makeBuiltin =>
    let (events, registry) := Registry.empty.registerAll builtins
    ({ events }, { p with others := p.others ++ [registry] })
  | .copy which => ({}, { p with others := p.others ++ (p.pick which).toList })
  | .register i name factory =>
    match p.others[i]? with
    | none => ({}, p)
    | some registry =>
      let (events, registry) := registry.register name factory
      ({ events }, { p with others := p.others.set i registry })
  | .create which name config now => p.ask which fun registry => registry.create name config now
  | .ofConfig which config now => p.ask which fun registry => registry.ofConfig config now

/-- Deeds one after the other. -/
def run (builtins : List (String × Factory ω)) (deeds : List (RegistryDeed ω))
    (p : Registries ω) : Registries ω :=
  deeds.foldl (fun p deed => (act builtins deed p).2) p

end Registries

/-! ## Records -/

namespace RegistryDeed

variable {ω : Type}

/-- What is registered with each registry after a deed. A copy starts with what was registered with
its original until then. -/
def record (builtins : List (String × Factory ω)) (records : List (List (String × Factory ω))) :
    RegistryDeed ω → List (List (String × Factory ω))
  | .make => records ++ [[]]
  | .makeBuiltin | .copy none => records ++ [builtins]
  | .copy (some i) => records ++ records[i]?.toList
  | .register i name factory =>
    match records[i]? with
    | none => records
    | some registered => records.set i (registered ++ [(name, factory)])
  | .create _ _ _ _ | .ofConfig _ _ _ => records

/-- What is registered with each registry after some deeds. -/
def recordAll (builtins : List (String × Factory ω)) (deeds : List (RegistryDeed ω)) :
    List (List (String × Factory ω)) :=
  deeds.foldl (fun records deed => deed.record builtins records) []

/-- The events for a deed: one for a factory that takes the place of another one, one for a storage
that is created, under the name of its backend, and no others. -/
def Reports (records : List (List (String × Factory ω))) (account : RegistryAccount ω) :
    RegistryDeed ω → Prop
  | .make | .makeBuiltin | .copy _ => account.events = []
  | .register i name _ => account.events =
    if name ∈ (records[i]?.getD []).map (·.1) then [Registry.replacement name] else []
  | .create _ name _ _ => account.events =
    match account.result? with
    | some (.ok storage) => [Registry.creation name storage]
    | _ => []
  | .ofConfig _ config _ =>
    match account.result? with
    | some (.ok storage) => ∃ name, config.get? "type" = some (.string name) ∧
      account.events = [Registry.creation name storage]
    | _ => account.events = []

end RegistryDeed

namespace Registries

variable {ω : Type} {builtins : List (String × Factory ω)} {p : Registries ω}
  {records : List (List (String × Factory ω))} {registry : Registry ω} {i : ℕ}

open RegistryDeed (recordAll)

section

variable {α β : Type} {R : α → β → Prop} {as : List α} {bs : List β}

theorem rel_getElem? (h : List.Forall₂ R as bs) (i : ℕ) : Option.Rel R as[i]? bs[i]? := by
  induction h generalizing i with
  | nil => exact Option.Rel.none
  | cons hab _ ih =>
    cases i with
    | zero => exact Option.Rel.some hab
    | succ i => exact ih i

theorem forall₂_set (h : List.Forall₂ R as bs) {a : α} {b : β} (hab : R a b) (i : ℕ) :
    List.Forall₂ R (as.set i a) (bs.set i b) := by
  induction h generalizing i with
  | nil => exact List.Forall₂.nil
  | cons hfirst hrest ih =>
    cases i with
    | zero => exact List.Forall₂.cons hab hrest
    | succ i => exact List.Forall₂.cons hfirst (ih i)

theorem forall₂_append_toList (h : List.Forall₂ R as bs) {a? : Option α} {b? : Option β}
    (hab : Option.Rel R a? b?) : List.Forall₂ R (as ++ a?.toList) (bs ++ b?.toList) := by
  apply List.rel_append h
  cases hab with
  | none => exact List.Forall₂.nil
  | some hab => exact List.Forall₂.cons hab List.Forall₂.nil

end

/-- Registries go by what is recorded of them; the shared one is as it was at the start. -/
structure Keeps (builtins : List (String × Factory ω)) (records : List (List (String × Factory ω)))
    (p : Registries ω) : Prop where
  shared : p.shared = .of builtins
  others : List.Forall₂ Registry.Holds p.others records

theorem keeps_start (builtins : List (String × Factory ω)) (w : ω) :
    Keeps builtins [] (start builtins w) := ⟨rfl, List.Forall₂.nil⟩

theorem ask_frame (p : Registries ω) (which : Option ℕ)
    (request : Registry ω → ω → Reply (Storage ω) × ω) :
    (p.ask which request).2.shared = p.shared ∧ (p.ask which request).2.others = p.others := by
  unfold ask
  cases p.pick which with
  | none => exact ⟨rfl, rfl⟩
  | some registry => exact ⟨rfl, rfl⟩

/-- A storage that is asked for changes no registry. -/
theorem Keeps.ask (h : Keeps builtins records p) (which : Option ℕ)
    (request : Registry ω → ω → Reply (Storage ω) × ω) :
    Keeps builtins records (p.ask which request).2 := by
  obtain ⟨hshared, hothers⟩ := p.ask_frame which request
  exact ⟨hshared.trans h.shared, hothers ▸ h.others⟩

theorem Keeps.act (h : Keeps builtins records p) (deed : RegistryDeed ω) :
    Keeps builtins (deed.record builtins records) (act builtins deed p).2 := by
  have hshared : (Registry.of builtins).Holds builtins := Registry.holds_of builtins
  cases deed with
  | make => exact ⟨h.shared, List.rel_append h.others (.cons Registry.holds_empty .nil)⟩
  | makeBuiltin => exact ⟨h.shared, List.rel_append h.others (.cons hshared .nil)⟩
  | copy which =>
    refine ⟨h.shared, ?_⟩
    cases which with
    | none =>
      show List.Forall₂ Registry.Holds (p.others ++ [p.shared]) (records ++ [builtins])
      rw [h.shared]
      exact List.rel_append h.others (.cons hshared .nil)
    | some i => exact forall₂_append_toList h.others (rel_getElem? h.others i)
  | register i name factory =>
    have hi := rel_getElem? h.others i
    simp only [Registries.act, RegistryDeed.record]
    generalize p.others[i]? = picked, records[i]? = recorded at hi ⊢
    cases hi with
    | none => exact h
    | some hholds => exact ⟨h.shared, forall₂_set h.others (hholds.register name factory) i⟩
  | create which name config now => exact h.ask which _
  | ofConfig which config now => exact h.ask which _

theorem Keeps.run (h : Keeps builtins records p) (deeds : List (RegistryDeed ω)) :
    Keeps builtins (deeds.foldl (fun records deed => deed.record builtins records) records)
      (run builtins deeds p) := by
  induction deeds generalizing p records with
  | nil => exact h
  | cons deed rest ih => exact ih (h.act deed)

/-! ## What a deed reports -/

theorem events_ask (p : Registries ω) (which : Option ℕ)
    (request : Registry ω → ω → Reply (Storage ω) × ω) :
    (p.ask which request).1 = {} ∨
      ∃ registry, p.pick which = some registry ∧
        (p.ask which request).1.events = (request registry p.world).1.events ∧
        (p.ask which request).1.result? = some (request registry p.world).1.result := by
  unfold ask
  cases p.pick which with
  | none => exact Or.inl rfl
  | some registry => exact Or.inr ⟨registry, rfl, rfl, rfl⟩

theorem Keeps.reports (h : Keeps builtins records p) (hn : (builtins.map (·.1)).Nodup)
    (deed : RegistryDeed ω) : deed.Reports records (Registries.act builtins deed p).1 := by
  cases deed with
  | make => rfl
  | makeBuiltin => exact Registry.holds_empty.events_registerAll hn
  | copy which => rfl
  | register i name factory =>
    have hi := rel_getElem? h.others i
    simp only [Registries.act, RegistryDeed.Reports]
    generalize p.others[i]? = picked, records[i]? = recorded at hi ⊢
    cases hi with
    | none => rfl
    | some hholds =>
      refine (Registry.events_register _ name factory).trans ?_
      exact if_congr hholds.mem_names rfl rfl
  | create which name config now =>
    show (p.ask which _).1.events = match (p.ask which _).1.result? with
      | some (.ok storage) => [Registry.creation name storage]
      | _ => []
    obtain hnone | ⟨registry, -, hevents, hresult⟩ :=
      p.events_ask which fun registry => registry.create name config now
    · rw [hnone]
    · rw [hevents, hresult, Registry.events_create]
      cases (registry.create name config now p.world).1.result <;> rfl
  | ofConfig which config now =>
    show match (p.ask which _).1.result? with
      | some (.ok storage) => ∃ name, config.get? "type" = some (.string name) ∧
        (p.ask which _).1.events = [Registry.creation name storage]
      | _ => (p.ask which _).1.events = []
    obtain hnone | ⟨registry, -, hevents, hresult⟩ :=
      p.events_ask which fun registry => registry.ofConfig config now
    · rw [hnone]
    · have hconfig := registry.events_ofConfig config now p.world
      rw [hevents, hresult]
      cases hreply : (registry.ofConfig config now p.world).1.result with
      | error e =>
        rw [hreply] at hconfig
        exact hconfig
      | ok storage =>
        rw [hreply] at hconfig
        exact hconfig

/-! ## What a deed leaves alone -/

/-- Only a registration with a registry changes it. -/
theorem act_frame {deed : RegistryDeed ω} (h : p.others[i]? = some registry)
    (hdeed : ∀ name factory, deed ≠ .register i name factory) :
    (act builtins deed p).2.others[i]? = some registry := by
  have hi : i < p.others.length := (List.getElem?_eq_some_iff.mp h).1
  have happend : ∀ more, (p.others ++ more)[i]? = some registry := fun more =>
    (List.getElem?_append_left hi).trans h
  cases deed with
  | make => exact happend _
  | makeBuiltin => exact happend _
  | copy which => exact happend _
  | register j name factory =>
    have hij : j ≠ i := fun he => hdeed name factory (he ▸ rfl)
    simp only [act]
    split
    · exact h
    · exact (List.getElem?_set_ne hij).trans h
  | create which name config now => exact (congrArg (·[i]?) (p.ask_frame which _).2).trans h
  | ofConfig which config now => exact (congrArg (·[i]?) (p.ask_frame which _).2).trans h

theorem run_frame {deeds : List (RegistryDeed ω)} (h : p.others[i]? = some registry)
    (hdeeds : ∀ deed ∈ deeds, ∀ name factory, deed ≠ .register i name factory) :
    (run builtins deeds p).others[i]? = some registry := by
  induction deeds generalizing p with
  | nil => exact h
  | cons deed rest ih =>
    obtain ⟨hdeed, hrest⟩ := List.forall_mem_cons.mp hdeeds
    exact ih (act_frame h hdeed) hrest

/-! ## Any deeds -/

/-- **Registries answer by their records.** Whatever is done with the registries of a program, in
any order: each of them answers by what was registered with it, or with its original before it was
copied; the shared one answers by the built-in factories; every deed is reported as it should be;
and deeds that register nothing with a registry, on copies of it as well, leave it and the shared
one as they were. -/
theorem answer_throughout (builtins : List (String × Factory ω)) (hn : (builtins.map (·.1)).Nodup)
    (w : ω) (deeds : List (RegistryDeed ω)) :
    let p := run builtins deeds (start builtins w)
    (p.shared = .of builtins ∧ p.shared.Answers builtins) ∧
      List.Forall₂ Registry.Answers p.others (recordAll builtins deeds) ∧
      (∀ deed : RegistryDeed ω, deed.Reports (recordAll builtins deeds) (act builtins deed p).1) ∧
      ∀ more : List (RegistryDeed ω), (run builtins more p).shared = p.shared ∧
        ∀ i registry, p.others[i]? = some registry →
          (∀ deed ∈ more, ∀ name factory, deed ≠ .register i name factory) →
          (run builtins more p).others[i]? = some registry := by
  intro p
  have hkeeps : Keeps builtins (recordAll builtins deeds) p := (keeps_start builtins w).run deeds
  have hshared : p.shared.Answers builtins := hkeeps.shared ▸ (Registry.holds_of builtins).answers
  refine ⟨⟨hkeeps.shared, hshared⟩, hkeeps.others.imp fun _ _ => Registry.Holds.answers,
    hkeeps.reports hn, fun more => ⟨?_, fun i registry => run_frame⟩⟩
  exact (hkeeps.run more).shared.trans hkeeps.shared.symm

/-- A factory that finds nothing. -/
def lost : Factory World := fun _ _ w => (.error (.notFound Key.root), w)

/-- The built-in `memory` is replaced in a copy of a built-in registry. -/
def replaced : RegistryDeed World := .register 1 "memory" lost

/-- The replacement is reported, and the copy fails from then on. The original and the shared
registry stay what they were. -/
theorem answer_throughout_replaced :
    let p := run World.builtins [.makeBuiltin, .copy (some 0)] (start World.builtins default)
    let q := run World.builtins [replaced] p
    (World.builtins.map (·.1)).Nodup ∧ (∀ name factory, replaced ≠ .register 0 name factory) ∧
      (act World.builtins replaced p).1.events = [Registry.replacement "memory"] ∧
      q.shared = World.registry ∧ q.others[0]? = some World.registry ∧
      ∃ copied, q.others[1]? = some copied ∧ copied.names.Pairwise (· < ·) ∧
        copied.create "memory" Config.empty ⟨0⟩ default =
          (.error (.notFound Key.root), default) := by
  intro p q
  have hn : (World.builtins.map (·.1)).Nodup := by decide
  have hother : ∀ name factory, replaced ≠ .register 0 name factory := nofun
  obtain ⟨⟨hshared, -⟩, -, hreports, hframe⟩ :=
    answer_throughout World.builtins hn default [.makeBuiltin, .copy (some 0)]
  obtain ⟨hsame, hkept⟩ := hframe [replaced]
  obtain ⟨-, hanswers, -, -⟩ :=
    answer_throughout World.builtins hn default [.makeBuiltin, .copy (some 0), replaced]
  refine ⟨hn, hother, ?_, hsame.trans hshared, ?_, ?_⟩
  · exact (hreports replaced).trans (if_pos (by decide))
  · exact hkept 0 World.registry rfl (List.forall_mem_singleton.mpr hother)
  · have hcopied : (World.registry.register "memory" lost).2.Answers
        (World.builtins ++ [("memory", lost)]) := by
      cases hanswers with
      | cons _ hrest =>
        cases hrest with
        | cons hsecond _ => exact hsecond
    exact ⟨_, rfl, hcopied.ascending, hcopied.create "memory" Config.empty ⟨0⟩ default⟩

end Registries

end BlobStore
