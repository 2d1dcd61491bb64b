import BlobStore.Logged
import BlobStore.Proofs.Usage

/-!
# Logged storages do what the storages do

Used in the same way, a logged storage shows its users what the storage shows, gives the same locks
at the same times, and comes to the same state. What it reports is what the storage reports, and at
the end of a step one event more if the storage answered a request in that step.

## Main definitions

* `Account.noted`: what comes of a deed on a logged storage
* `Logged.Reports`: what the event for a request says

## Main results

* `Storage.perform_logged`: one deed on a logged storage
* `Storage.use_logged`: all of them
* `Logged.reports_event`: the event for a request says what it should
* `Storage.logged_transparent`: the runs of a logged storage beside those of the storage
-/

namespace BlobStore

/-! ## One deed -/

section

variable {σ : Type} (S : Storage σ)

/-- An account with the events of a logged storage after the others. -/
def Account.logged (identifier : String) (a : Account) : Account :=
  { a with
    events := a.events ++ a.upshot.served.map fun x => Logged.event identifier x.request x.result }

/-- What comes of a deed on a logged storage, if this comes of it on the storage. -/
def Account.noted {α : Type} (identifier : String) (p : Account × α) : Account × α :=
  (p.1.logged identifier, p.2)

/-- Where no request was answered there is nothing to report. -/
theorem Account.noted_of_served {α : Type} {identifier : String} {a : Account} (after : α)
    (h : a.upshot.served = []) : Account.noted identifier (a, after) = (a, after) := by
  simp [noted, logged, h]

theorem Storage.poll_logged (pending : PendingTransaction) (s : σ) :
    S.logged.poll pending s = S.poll pending s := rfl

/-- A transaction asks, and its lock is granted and given back, as on the storage. -/
theorem Storage.transact_logged (pending : PendingTransaction) (stage : Stage)
    (deed : TransactionDeed) (now : Time) (s : σ) :
    S.logged.transact pending stage deed now s =
      Account.noted S.identifier (S.transact pending stage deed now s) := by
  cases stage with
  | waiting =>
    cases deed with
    | poll =>
      simp only [transact, poll_logged]
      rcases S.poll pending s with ⟨_ | _ | _, events, after⟩ <;>
        exact (Account.noted_of_served _ rfl).symm
    | _ => exact (Account.noted_of_served _ rfl).symm
  | active tx =>
    cases deed with
    | ask r =>
      simp only [transact]
      cases tx.outside? r with
      | some key => exact (Account.noted_of_served _ rfl).symm
      | none => rfl
    | drop background => cases background <;> exact (Account.noted_of_served _ rfl).symm
    | _ => exact (Account.noted_of_served _ rfl).symm
  | leaving tx => cases deed <;> exact (Account.noted_of_served _ rfl).symm
  | withdrawn => exact (Account.noted_of_served _ rfl).symm
  | refused cause => exact (Account.noted_of_served _ rfl).symm
  | ended result => exact (Account.noted_of_served _ rfl).symm

/-- An upload is reported when the storage has answered it, also if it refused it at once. -/
theorem Storage.startUpload_logged (key : Key) (size : Option Nat) (now : Time) (s : σ) :
    S.logged.startUpload key size now s =
      Account.noted S.identifier (S.startUpload key size now s) := by
  rcases h : S.intake.start key size now s with ⟨⟨result, events⟩, after⟩
  simp only [startUpload, Upload.start, Storage.logged, Backend.logged, Intake.logged, h]
  cases result with
  | ok draft => exact (Account.noted_of_served _ rfl).symm
  | error e => rfl

/-- The end of an upload is reported, also if its content fails, but not if it is given up. -/
theorem Storage.upload_logged (u : Upload) (deed : UploadDeed) (now : Time) (s : σ) :
    S.logged.upload u deed now s = Account.noted S.identifier (S.upload u deed now s) := by
  obtain ⟨key, size, stage⟩ := u
  cases stage with
  | receiving draft =>
    cases deed with
    | feed piece =>
      cases piece with
      | chunk bytes => exact (Account.noted_of_served _ rfl).symm
      | failure cause => rfl
    | finish => rfl
    | cancel => exact (Account.noted_of_served _ rfl).symm
  | ended result => cases deed <;> exact (Account.noted_of_served _ rfl).symm

/-- A deed on a logged storage: all is as on the storage, and an answered request is reported. -/
theorem Storage.perform_logged (deed : Deed) (now : Time) (u : InUse σ) :
    S.logged.perform deed now u = Account.noted S.identifier (S.perform deed now u) := by
  cases deed with
  | ask r => rfl
  | begin keys => exact (Account.noted_of_served _ rfl).symm
  | transact i deed =>
    simp only [perform]
    rcases u.transactions[i]? with _ | ⟨pending, stage⟩
    · exact (Account.noted_of_served _ rfl).symm
    · simp only [transact_logged]
      rfl
  | start key size =>
    simp only [perform, startUpload_logged]
    rfl
  | upload i deed =>
    simp only [perform]
    rcases u.uploads[i]? with _ | _ | upload
    · exact (Account.noted_of_served _ rfl).symm
    · exact (Account.noted_of_served _ rfl).symm
    · simp only [upload_logged]
      rfl

/-! ## All deeds -/

/-- Deeds on a logged storage: all is as on the storage, and every answered request is reported. -/
theorem Storage.use_logged (clock : Nat → Time) (deeds : List Deed) (n : Nat) (u : InUse σ) :
    S.logged.use clock deeds n u =
      ((S.use clock deeds n u).1.map (Account.logged S.identifier), (S.use clock deeds n u).2) := by
  induction deeds generalizing n u with
  | nil => rfl
  | cons deed rest ih =>
    simp only [use, perform_logged, Account.noted, ih, List.map_cons]

end

/-! ## The event for a request -/

/-- Something went wrong, other than that a key is not there. -/
def Exchange.Fails (x : Exchange) : Prop :=
  ∃ cause, x.result = .error cause ∧ ∀ key, cause ≠ .notFound key

/-- The keys that are named in the report on an exchange, with what they are to it: of a failed move
only the source. -/
def Exchange.subjects : Exchange → List (String × Key)
  | ⟨.list scope, .ok _⟩ => [("prefix", scope)]
  | ⟨.move source destination, .ok _⟩ => [("source", source), ("destination", destination)]
  | ⟨r, _⟩ => [("key", r.subject)]

/-- What the event for a request to the storage called `identifier` says: a warning if something
went wrong, the name of the request, the storage and the keys. -/
structure Logged.Reports (identifier : String) (x : Exchange) (e : Event) : Prop where
  topic : e.topic = .logging
  level : e.level = .warn ∧ x.Fails ∨ e.level = .debug ∧ ¬ x.Fails
  name : ∃ rest, e.message = x.request.name ++ rest
  storage : ("storage", identifier) ∈ e.fields
  subjects : ∀ p ∈ x.subjects, (p.1, p.2.text) ∈ e.fields

theorem StorageError.isNotFound_iff {e : StorageError} :
    e.isNotFound ↔ ∃ key, e = .notFound key := by
  cases e <;> simp [isNotFound]

theorem Exchange.fails_error {r : Request} {cause : StorageError} :
    Exchange.Fails ⟨r, .error cause⟩ ↔ ¬ cause.isNotFound := by
  rw [StorageError.isNotFound_iff, not_exists]
  constructor
  · rintro ⟨_, ⟨rfl⟩, h⟩
    exact h
  · exact fun h => ⟨cause, rfl, h⟩

theorem Logged.reports_ok (identifier : String) (r : Request) (answer : r.Answer) :
    Reports identifier ⟨r, .ok answer⟩ (event identifier r (.ok answer)) where
  topic := rfl
  level := Or.inr ⟨rfl, fun ⟨_, h, _⟩ => nomatch h⟩
  name := ⟨"", String.append_empty.symm⟩
  storage := List.mem_cons_self
  subjects := by cases r <;> simp [Exchange.subjects, event, details, Request.subject]

theorem Logged.reports_error (identifier : String) (r : Request) (cause : StorageError) :
    Reports identifier ⟨r, .error cause⟩ (event identifier r (.error cause)) := by
  have hsubjects : Exchange.subjects ⟨r, .error cause⟩ = [("key", r.subject)] := by
    cases r <;> rfl
  by_cases h : cause.isNotFound
  · have hlevel : ¬ Exchange.Fails ⟨r, .error cause⟩ := fun hf => Exchange.fails_error.mp hf h
    simp only [event, h, if_true]
    exact ⟨rfl, Or.inr ⟨rfl, hlevel⟩, ⟨": not found", rfl⟩, by simp, by simp [hsubjects]⟩
  · have hlevel : Exchange.Fails ⟨r, .error cause⟩ := Exchange.fails_error.mpr h
    simp only [event, if_neg h]
    exact ⟨rfl, Or.inl ⟨rfl, hlevel⟩, ⟨" failed", rfl⟩, by simp, by simp [hsubjects]⟩

theorem Logged.reports_event (identifier : String) (x : Exchange) :
    Reports identifier x (event identifier x.request x.result) := by
  obtain ⟨r, cause | answer⟩ := x
  · exact reports_error identifier r cause
  · exact reports_ok identifier r answer

/-- **Logged storages.** Whatever a storage does, the logged storage has its identifier and its
locks, answers every request alike from every state, and reports after the storage's own events one
of its own. So all that is done on it shows its users the same, every answer, error and grant of a
lock, and comes to the same state; and the events of a step are those of the storage, with one for
the request that was answered in it, if one was. -/
theorem Storage.logged_transparent {σ : Type} (S : Storage σ) (clock : Nat → Time)
    (deeds : List Deed) (u : InUse σ) :
    S.logged.identifier = S.identifier ∧ S.logged.locking = S.locking ∧
      (∀ r now s, ∃ own, Logged.Reports S.identifier ⟨r, (S.answer r now s).1.result⟩ own ∧
        S.logged.answer r now s =
          (⟨(S.answer r now s).1.result, (S.answer r now s).1.events ++ [own]⟩,
            (S.answer r now s).2)) ∧
      (S.logged.use clock deeds 0 u).2 = (S.use clock deeds 0 u).2 ∧
      List.Forall₂
        (fun plain logged => logged.upshot = plain.upshot ∧
          ∃ own, logged.events = plain.events ++ own ∧
            List.Forall₂ (Logged.Reports S.identifier) plain.upshot.served own)
        (S.use clock deeds 0 u).1 (S.logged.use clock deeds 0 u).1 := by
  refine ⟨rfl, rfl, fun r now s => ⟨_, Logged.reports_event S.identifier _, rfl⟩, ?_⟩
  rw [S.use_logged clock deeds 0 u]
  refine ⟨rfl, ?_⟩
  rw [List.forall₂_map_right_iff]
  refine List.forall₂_same.mpr fun account _ => ⟨rfl, _, rfl, ?_⟩
  rw [List.forall₂_map_right_iff]
  exact List.forall₂_same.mpr fun x _ => Logged.reports_event S.identifier x

end BlobStore
