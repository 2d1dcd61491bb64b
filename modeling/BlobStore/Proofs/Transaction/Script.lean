import BlobStore.Proofs.Memory
import BlobStore.Proofs.Observation
import BlobStore.Transaction
import Mathlib.Data.Set.Function

/-!
# What is done in a transaction

The owner of a transaction asks one request after the other. What it asks next may depend on the
answers so far, but not on the instants in them. A script over a memory reads and changes the
contents of its own keys only, so scripts over disjoint keys do not see each other.

## Main definitions

* `Script`, `Closing`: the requests of a transaction, and its end
* `Script.run`: a script from its beginning to its end
* `serial`: scripts one after the other

## Main results

* `Script.run_congr`, `Script.run_frame`: what a script depends on and what it leaves alone
* `serial_avoiding`: scripts that avoid keys see nothing of them
* `serial_advance`: the first request of one of several scripts asked before all others
-/

namespace BlobStore

/-! ## Scripts -/

/-- How a transaction ends. -/
inductive Closing
  | finish (ending : Ending)
  | drop (background : Bool)
deriving DecidableEq, Repr

/-- What is done in a transaction: requests, each chosen by the answers before it. -/
inductive Script
  | ask (r : Request) (next : Except StorageError r.Answer → Script)
  | stop (closing : Closing)

section

variable {σ : Type} (S : Storage σ)

/-- The answer to a request in a transaction, the instants aside, and the state after it. -/
def Transaction.hear (tx : Transaction) (r : Request) (now : Time) (s : σ) :
    Except StorageError r.Answer × σ :=
  ((tx.answer S r now s).1.result.map r.timeless, (tx.answer S r now s).2)

/-- A script from its beginning to its end, in a transaction: what it asks and hears, and the state
after it. The clock tells the time of every request; `n` requests were made before. -/
def Script.run (tx : Transaction) (clock : Nat → Time) :
    Script → Nat → σ → List Exchange × Nat × σ
  | .stop _, n, s => ([], n, s)
  | .ask r next, n, s =>
    let (result, s) := tx.hear S r (clock n) s
    let (log, n, s) := (next result).run tx clock (n + 1) s
    (⟨r, result⟩ :: log, n, s)

/-- Scripts one after the other, each whole and in its own transaction. -/
def serial (clock : Nat → Time) :
    List (Transaction × Script) → Nat → σ → List (List Exchange) × Nat × σ
  | [], n, s => ([], n, s)
  | (tx, p) :: rest, n, s =>
    let (log, n, s) := p.run S tx clock n s
    let (logs, n, s) := serial clock rest n s
    (log :: logs, n, s)

end

/-! ## One request -/

/-- The keys of a transaction, as a set. -/
def Transaction.scope (tx : Transaction) : Set Key := {k | k ∈ tx.keys}

/-- A request that is let through names keys of the transaction only, and is no listing. -/
theorem Transaction.named_of_outside?_eq_none {tx : Transaction} {r : Request}
    (h : tx.outside? r = none) : (∀ scope, r ≠ .list scope) ∧ ∀ k ∈ r.named, k ∈ tx.scope := by
  cases r with
  | list scope => cases h
  | move source destination =>
    refine ⟨fun _ => by simp, ?_⟩
    simpa [outside?, contains, Request.named, scope] using h
  | contains key | save key _ | value key | delete key | metadata key =>
    refine ⟨fun _ => by simp, ?_⟩
    simpa [outside?, contains, Request.named, scope] using h

/-- The state of a storage in memory. -/
abbrev Memory.State := Memory × LockTable

/-- A memory with its own locks. -/
abbrev Memory.storage : Storage Memory.State := Memory.backend.locked

section

open Memory (storage)

variable {tx : Transaction} {r : Request} {s s' : Memory.State}

/-- A request in a transaction is refused, or answered by the memory. -/
theorem Transaction.answer_storage (tx : Transaction) (r : Request) (now : Time)
    (s : Memory.State) :
    tx.answer storage r now s =
      match tx.outside? r with
      | some key => (.error (.outsideTransaction key), s)
      | none => ((s.1.answer r now).1, ((s.1.answer r now).2, s.2)) := rfl

theorem Transaction.hear_locks (tx : Transaction) (r : Request) (s : Memory.State) (now : Time) :
    (tx.hear storage r now s).2.2 = s.2 := by
  unfold hear
  rw [answer_storage]
  split <;> rfl

/-- A request that is let through changes the contents as it says. -/
theorem Transaction.hear_contents (h : tx.outside? r = none) (now : Time) :
    (tx.hear storage r now s).2.1.contents = r.effect s.1.contents := by
  unfold hear
  rw [answer_storage, h]
  exact Memory.contents_answer r now s.1

/-- A request in a transaction leaves the contents outside the transaction alone. -/
theorem Transaction.hear_frame (now : Time) {k : Key} (hk : k ∉ tx.scope) :
    (tx.hear storage r now s).2.1.contents k = s.1.contents k := by
  cases hr : tx.outside? r with
  | some key =>
    unfold hear
    rw [answer_storage, hr]
  | none =>
    rw [hear_contents hr]
    exact Request.effect_of_not_mem (fun hm => hk ((named_of_outside?_eq_none hr).2 k hm)) _

/-- A request in a transaction is answered alike where the contents of its keys are the same. -/
theorem Transaction.hear_congr (h : Set.EqOn s.1.contents s'.1.contents tx.scope)
    (now now' : Time) : (tx.hear storage r now s).1 = (tx.hear storage r now' s').1 := by
  unfold hear
  rw [answer_storage, answer_storage]
  split
  · rfl
  · rename_i hr
    obtain ⟨hl, hn⟩ := named_of_outside?_eq_none hr
    exact Memory.answer_congr hl (fun k hk => h (hn k hk)) now now'

/-- The contents of a key after a request depend on those of this key, and on those of the
transaction. -/
theorem Transaction.hear_contents_congr (h : Set.EqOn s.1.contents s'.1.contents tx.scope)
    (now now' : Time) {k : Key} (hk : s.1.contents k = s'.1.contents k) :
    (tx.hear storage r now s).2.1.contents k = (tx.hear storage r now' s').2.1.contents k := by
  cases hr : tx.outside? r with
  | some key =>
    unfold hear
    rw [answer_storage, answer_storage, hr]
    exact hk
  | none =>
    rw [hear_contents hr, hear_contents hr]
    exact Request.effect_congr (fun j hj => h ((named_of_outside?_eq_none hr).2 j hj)) hk

/-! ## Whole scripts -/

variable {clock clock' : Nat → Time}

/-- A script hears the same wherever the contents of its keys are the same, and what it leaves
under a key depends on what was there. -/
theorem Script.run_congr (tx : Transaction) (clock clock' : Nat → Time) (p : Script) (n n' : Nat)
    (h : Set.EqOn s.1.contents s'.1.contents tx.scope) :
    (p.run storage tx clock n s).1 = (p.run storage tx clock' n' s').1 ∧
      ∀ k, s.1.contents k = s'.1.contents k →
        (p.run storage tx clock n s).2.2.1.contents k =
          (p.run storage tx clock' n' s').2.2.1.contents k := by
  induction p generalizing n n' s s' with
  | stop closing => exact ⟨rfl, fun _ hk => hk⟩
  | ask r next ih =>
    have hr := Transaction.hear_congr (r := r) h (clock n) (clock' n')
    have hc := fun k => Transaction.hear_contents_congr (r := r) (k := k) h (clock n) (clock' n')
    simp only [run, hr]
    obtain ⟨hlog, hk⟩ := ih _ (n + 1) (n' + 1) fun k hk => hc k (h hk)
    exact ⟨by rw [hlog], fun k hs => hk k (hc k hs)⟩

/-- A script leaves the contents outside its transaction alone. -/
theorem Script.run_frame (p : Script) {n : Nat} {k : Key} (hk : k ∉ tx.scope) :
    (p.run storage tx clock n s).2.2.1.contents k = s.1.contents k := by
  induction p generalizing n s with
  | stop closing => rfl
  | ask r next ih => exact (ih _).trans (Transaction.hear_frame (clock n) hk)

/-! ## Scripts one after the other -/

variable {scripts others : List (Transaction × Script)}

theorem serial_append {σ : Type} (S : Storage σ) (clock : Nat → Time)
    (scripts others : List (Transaction × Script)) (n : Nat) (s : σ) :
    serial S clock (scripts ++ others) n s =
      ((serial S clock scripts n s).1 ++
          (serial S clock others (serial S clock scripts n s).2.1
            (serial S clock scripts n s).2.2).1,
        (serial S clock others (serial S clock scripts n s).2.1
          (serial S clock scripts n s).2.2).2) := by
  induction scripts generalizing n s with
  | nil => rfl
  | cons g rest ih => simp only [List.cons_append, serial, ih]

theorem serial_length {σ : Type} (S : Storage σ) (clock : Nat → Time)
    (scripts : List (Transaction × Script)) (n : Nat) (s : σ) :
    (serial S clock scripts n s).1.length = scripts.length := by
  induction scripts generalizing n s with
  | nil => rfl
  | cons g rest ih => simp only [serial, List.length_cons, ih]

/-- From the same contents the same is heard, and the same contents are left. -/
theorem serial_congr (clock clock' : Nat → Time) (scripts : List (Transaction × Script))
    (n n' : Nat) (h : s.1.contents = s'.1.contents) :
    (serial storage clock scripts n s).1 = (serial storage clock' scripts n' s').1 ∧
      (serial storage clock scripts n s).2.2.1.contents =
        (serial storage clock' scripts n' s').2.2.1.contents := by
  induction scripts generalizing n n' s s' with
  | nil => exact ⟨rfl, h⟩
  | cons g rest ih =>
    obtain ⟨tx, p⟩ := g
    obtain ⟨hlog, hk⟩ := p.run_congr tx clock clock' n n' fun k _ => congrFun h k
    obtain ⟨hlogs, hafter⟩ := ih _ _ (funext fun k => hk k (congrFun h k))
    exact ⟨congrArg₂ List.cons hlog hlogs, hafter⟩

/-- A script that asks nothing, or one of a transaction over none of some keys. -/
def Avoids (keys : Set Key) (g : Transaction × Script) : Prop :=
  (∃ closing, g.2 = .stop closing) ∨ ∀ k ∈ g.1.scope, k ∉ keys

/-- **Non-interference.** Scripts that avoid keys leave their contents alone, and hear the same
whatever these are. -/
theorem serial_avoiding (clock clock' : Nat → Time) {keys : Set Key} (n n' : Nat)
    (ha : ∀ g ∈ scripts, Avoids keys g) (h : Set.EqOn s.1.contents s'.1.contents keysᶜ) :
    (serial storage clock scripts n s).1 = (serial storage clock' scripts n' s').1 ∧
      Set.EqOn (serial storage clock scripts n s).2.2.1.contents
        (serial storage clock' scripts n' s').2.2.1.contents keysᶜ ∧
      Set.EqOn (serial storage clock scripts n s).2.2.1.contents s.1.contents keys ∧
      Set.EqOn (serial storage clock' scripts n' s').2.2.1.contents s'.1.contents keys := by
  induction scripts generalizing n n' s s' with
  | nil => exact ⟨rfl, h, fun _ _ => rfl, fun _ _ => rfl⟩
  | cons g rest ih =>
    obtain ⟨tx, p⟩ := g
    have hrest := fun g hg => ha g (List.mem_cons_of_mem _ hg)
    rcases ha (tx, p) List.mem_cons_self with ⟨closing, hp⟩ | hout
    · simp only at hp
      subst hp
      obtain ⟨hlogs, hafter⟩ := ih n n' hrest h
      exact ⟨congrArg (List.cons []) hlogs, hafter⟩
    · obtain ⟨hlog, hk⟩ := p.run_congr tx clock clock' n n' fun k hk => h (hout k hk)
      have hin : ∀ k ∈ keys, k ∉ tx.scope := fun k hk hm => hout k hm hk
      obtain ⟨hlogs, hafter, hkeep, hkeep'⟩ := ih _ _ hrest fun k hkc => hk k (h hkc)
      refine ⟨congrArg₂ List.cons hlog hlogs, hafter, ?_, ?_⟩
      · intro k hkk
        exact (hkeep hkk).trans (p.run_frame (hin k hkk))
      · intro k hkk
        exact (hkeep' hkk).trans (p.run_frame (hin k hkk))

/-- **Advance.** Among scripts that wait to be run one after the other, the next request of one can
be asked right away, if the scripts before it avoid its keys. -/
theorem serial_advance (clock : Nat → Time) {next : Except StorageError r.Answer → Script} {n : Nat}
    (others : List (Transaction × Script)) (ha : ∀ g ∈ scripts, Avoids tx.scope g)
    (now : Time) {result : Except StorageError r.Answer}
    (hear : tx.hear storage r now s = (result, s')) :
    ∃ before log after,
      before.length = scripts.length ∧
      (serial storage clock (scripts ++ (tx, .ask r next) :: others) n s).1 =
        before ++ (⟨r, result⟩ :: log) :: after ∧
      (serial storage clock (scripts ++ (tx, next result) :: others) n s').1 =
        before ++ log :: after ∧
      (serial storage clock (scripts ++ (tx, .ask r next) :: others) n s).2.2.1.contents =
        (serial storage clock (scripts ++ (tx, next result) :: others) n s').2.2.1.contents := by
  obtain ⟨hfirst, hsecond⟩ := Prod.mk.inj hear
  have hframe : Set.EqOn s.1.contents s'.1.contents tx.scopeᶜ := by
    intro k hk
    rw [← hsecond]
    exact (Transaction.hear_frame now hk).symm
  obtain ⟨hlogs, hoff, hkeep, hkeep'⟩ :=
    serial_avoiding clock clock n n ha hframe
  rw [serial_append, serial_append, ← hlogs]
  have hlength := serial_length storage clock scripts n s
  generalize serial storage clock scripts n s = p at hoff hkeep hlength ⊢
  generalize serial storage clock scripts n s' = q at hoff hkeep' ⊢
  have hresult : (tx.hear storage r (clock p.2.1) p.2.2).1 = result := by
    rw [← hfirst]
    exact Transaction.hear_congr hkeep (clock p.2.1) now
  have hstate : (tx.hear storage r (clock p.2.1) p.2.2).2.1.contents = q.2.2.1.contents := by
    funext k
    by_cases hk : k ∈ tx.scope
    · rw [hkeep' hk, ← hsecond]
      exact Transaction.hear_contents_congr hkeep (clock p.2.1) now (hkeep hk)
    · exact (Transaction.hear_frame (clock p.2.1) hk).trans (hoff hk)
  obtain ⟨hrest, hafter⟩ := serial_congr clock clock ((tx, next result) :: others) (p.2.1 + 1)
    q.2.1 hstate
  refine ⟨p.1, _, _, hlength, ?_, congrArg (p.1 ++ ·) hrest.symm, ?_⟩
  · simp only [serial, Script.run, hresult]
  · rw [← hafter]
    simp only [serial, Script.run, hresult]

end

end BlobStore
