import BlobStore.Proofs.Lock.Invariant
import BlobStore.Proofs.Observation
import BlobStore.World

/-!
# Several handles on one storage

A program can open a storage more than once and put its requests through any of the handles. It can
lock keys through them, and it can give all of them up and open the storage again. What it is
answered is compared with what it is answered through a single handle.

## Main definitions

* `Opener`: what opens a storage
* `Locking.act`: what is done with the locks of a storage
* `HandleStep`: one handle more, all handles replaced by a new one, or a request or an action on
  locks through one of them
* `Handles`, `Handles.act`: the handles of a program, and a step with them
* `Handles.answers`: what comes of the requests of a run
* `Handles.AsOne`: they are answered as through the first handle alone

## Main results

* `Handles.answers_eq`: if every step keeps the handles beside a single one, no opening fails and
  all requests are answered as through the single one
-/

namespace BlobStore

/-- What a storage with a lock table beside its state answers, as a part of the whole. -/
theorem answer_locked_within {ω σ : Type} (b : Backend σ) (part : Part ω σ)
    (locks : Part ω LockTable) (r : Request) (now : Time) (w : ω) :
    (b.locked.within (part.both locks)).answer r now w =
      ((b.answer r now (part.get w)).1,
        locks.set (locks.get w) (part.set (b.answer r now (part.get w)).2 w)) := rfl

/-- What an action on the locks of a storage makes of its state. -/
def Locking.act {σ : Type} (l : Locking σ) (s : σ) : LockAction → σ
  | .make keys => (l.make keys s).2
  | .request lock => (l.request lock s).2
  | .poll t => (l.poll t s).2.2
  | .cancel t => l.cancel t s
  | .release lock => (l.release lock s).2
  | .discard lock => l.discard lock s

/-- An action on locks does nothing to what is beside the lock table. -/
theorem act_locked_within {ω σ : Type} (b : Backend σ) (part : Part ω σ) (locks : Part ω LockTable)
    (action : LockAction) (w : ω) :
    (b.locked.within (part.both locks)).locking.act w action =
      locks.set (LockTable.locking.act (locks.get w) action) (part.set (part.get w) w) := by
  cases action <;> rfl

/-- What opens a storage at an instant, or why it is not opened. -/
abbrev Opener := Time → World → Except DatabaseError (Storage World) × World

/-- A step of a program with several handles. -/
inductive HandleStep
  /-- One handle more. -/
  | opening
  /-- All handles are given up, and there is a new one in their place. -/
  | reopening
  /-- A request through the handle of a number; the first handle has the number 0. -/
  | asking (handle : Nat) (r : Request)
  /-- An action on the locks of a handle. -/
  | locking (handle : Nat) (action : LockAction)
deriving DecidableEq

/-- The request of a step, if it puts one. -/
def HandleStep.request? : HandleStep → Option Request
  | .asking _ r => some r
  | .opening | .reopening | .locking _ _ => none

/-- The handles on a storage, in the order in which they were opened. -/
structure Handles where
  world : World
  first : Storage World
  others : List (Storage World) := []

namespace Handles

/-- All handles. -/
def all (s : Handles) : List (Storage World) := s.first :: s.others

/-- The handle of a number; numbers that no handle has stand for the first one. -/
def handle (s : Handles) (n : Nat) : Storage World := s.all.getD n s.first

theorem handle_mem (s : Handles) (n : Nat) : s.handle n ∈ s.all := by
  unfold handle
  rw [List.getD_eq_getElem?_getD]
  cases h : s.all[n]? with
  | none => exact List.mem_cons_self
  | some storage => exact List.mem_of_getElem? h

/-! ## Runs -/

/-- The handles with a new one. -/
def opened (s : Handles) (storage : Storage World) (w : World) : Handles :=
  { s with world := w, others := s.others ++ [storage] }

theorem mem_all_opened {s : Handles} {storage other : Storage World} {w : World} :
    other ∈ (s.opened storage w).all ↔ other ∈ s.all ∨ other = storage := by
  simp [all, opened, or_assoc]

/-- What comes of a step, and the handles after it; the error is that of an opening. -/
def act (opener : Opener) (now : Time) (s : Handles) :
    HandleStep → Except DatabaseError (List Observation × Handles)
  | .opening =>
    match opener now s.world with
    | (.error e, _) => .error e
    | (.ok storage, w) => .ok ([], s.opened storage w)
  | .reopening =>
    match opener now s.world.closed with
    | (.error e, _) => .error e
    | (.ok storage, w) => .ok ([], { world := w, first := storage })
  | .asking n r =>
    let (reply, w) := (s.handle n).answer r now s.world
    .ok ([⟨r, reply.result.map r.shown⟩], { s with world := w })
  | .locking n action =>
    .ok ([], { s with world := (s.handle n).locking.act s.world action })

variable (opener : Opener) (clock : Nat → Time)

/-- What comes of the requests of a run, up to the first opening that fails. -/
def answers : List HandleStep → Nat → Handles → Except DatabaseError (List Observation)
  | [], _, _ => .ok []
  | step :: rest, n, s =>
    match s.act opener (clock n) step with
    | .error e => .error e
    | .ok (observed, s) => (answers rest (n + 1) s).map (observed ++ ·)

/-- No opening fails, and the requests of a run are answered as through the first handle alone,
whatever the instants. -/
def AsOne (clock' : Nat → Time) (steps : List HandleStep) (s : Handles) : Prop :=
  answers opener clock steps 0 s =
    .ok (s.first.observe clock' (steps.filterMap HandleStep.request?) 0 s.world)

variable {opener clock}

/-- **Simulation.** Handles beside the state of a single one: no opening fails, every handle answers
a request as the single one does, and the relation is kept. Actions on locks keep it too. Then whole
runs are answered as through the single handle. -/
theorem answers_eq {single : Storage World} {R : Nat → Handles → World → Prop}
    {allowed : Request → Prop} {bound : Nat} {clock' : Nat → Time}
    (hopen : ∀ n now s w, R n s w → ∃ storage w', opener now s.world = (.ok storage, w') ∧
      R (n + 1) (s.opened storage w') w)
    (hreopen : ∀ n now s w, R n s w → ∃ storage w', opener now s.world.closed = (.ok storage, w') ∧
      R (n + 1) { world := w', first := storage } w)
    (hask : ∀ n m s w, n < bound → R n s w → ∀ storage ∈ s.all, ∀ r, allowed r →
      (storage.answer r (clock n) s.world).1.result.map r.shown =
          (single.answer r (clock' m) w).1.result.map r.shown ∧
        R (n + 1) { s with world := (storage.answer r (clock n) s.world).2 }
          (single.answer r (clock' m) w).2)
    (hlock : ∀ n s w, R n s w → ∀ storage ∈ s.all, ∀ action,
      R (n + 1) { s with world := storage.locking.act s.world action } w)
    {steps : List HandleStep} {n : Nat} (m : Nat) {s : Handles} {w : World}
    (hn : n + steps.length ≤ bound) (hr : ∀ r ∈ steps.filterMap HandleStep.request?, allowed r)
    (h : R n s w) :
    answers opener clock steps n s =
      .ok (single.observe clock' (steps.filterMap HandleStep.request?) m w) := by
  induction steps generalizing n m s w with
  | nil => rfl
  | cons step rest ih =>
    rw [List.length_cons] at hn
    have hrest : ∀ r ∈ rest.filterMap HandleStep.request?, allowed r := fun r hm => hr r (by
      rw [List.filterMap_cons]
      split
      · exact hm
      · exact List.mem_cons_of_mem _ hm)
    cases step with
    | opening =>
      obtain ⟨storage, w', hopened, hafter⟩ := hopen n (clock n) s w h
      simp only [answers, act, hopened, List.filterMap_cons, HandleStep.request?]
      rw [ih m (by omega) hrest hafter]
      rfl
    | reopening =>
      obtain ⟨storage, w', hopened, hafter⟩ := hreopen n (clock n) s w h
      simp only [answers, act, hopened, List.filterMap_cons, HandleStep.request?]
      rw [ih m (by omega) hrest hafter]
      rfl
    | asking handle r =>
      obtain ⟨hresult, hafter⟩ := hask n m s w (by omega) h _ (s.handle_mem handle) r
        (hr r (by simp [HandleStep.request?]))
      simp only [answers, act, List.filterMap_cons, HandleStep.request?, Backend.observe]
      rw [hresult, ih (m + 1) (by omega) hrest hafter]
      rfl
    | locking handle action =>
      have hafter := hlock n s w h _ (s.handle_mem handle) action
      simp only [answers, act, List.filterMap_cons, HandleStep.request?]
      rw [ih m (by omega) hrest hafter]
      rfl

end Handles

end BlobStore
