import BlobStore.Storage

/-!
# What a storage shows

Storages of different kinds are compared by what they answer to the same requests, one after the
other. Of a value the declared size and the bytes count, and of attributes the size: instants differ
from kind to kind, and so does the way in which the bytes of a value are cut into chunks.

## Main definitions

* `Request.shown`: what counts of an answer
* `Exchange`: a request with its answer
* `Backend.fetch`: the bytes of a value, as a backend gives them
* `Backend.observe`: what a backend answers to requests, one after the other
* `Backend.after`: the state after them
* `Backend.Allows`: requests that are each allowed in the state that they meet

## Main results

* `Backend.after_induction`: what every request preserves, a run preserves
* `Backend.observe_congr`: backends whose states stay related answer alike
-/

namespace BlobStore

/-- The type of what counts of an answer. -/
abbrev Request.Shown : Request → Type
  | .contains _ => Bool
  | .list _ => List Key
  | .save _ _ => Unit
  | .value _ => Option Nat × Except ContentError Bytes
  | .move _ _ => Unit
  | .delete _ => Unit
  | .metadata _ => Option Nat

/-- What counts of an answer: of a value the declared size and the bytes, of attributes the size. -/
def Request.shown : (r : Request) → r.Answer → r.Shown
  | .contains _, b => b
  | .list _, nested => nested
  | .save _ _, done | .move _ _, done | .delete _, done => done
  | .value _, content => (content.size, content.drain)
  | .metadata _, m => m.size

/-- A request and what came of it. -/
structure Observation where
  request : Request
  result : Except StorageError request.Shown

/-- A request and its answer, the instants aside. -/
structure Exchange where
  request : Request
  result : Except StorageError request.Answer

namespace Backend

section

variable {σ : Type} (b : Backend σ) (clock : Nat → Time)

/-- The bytes that the value of a key drains to. -/
def fetch (key : Key) (now : Time) (s : σ) : Except StorageError Bytes :=
  (b.answer (.value key) now s).1.result.bind fun content => content.drain.mapError .content

/-- What came of requests, put one after the other; the clock tells the time of each. -/
def observe : List Request → Nat → σ → List Observation
  | [], _, _ => []
  | r :: rest, n, s =>
    let (reply, s) := b.answer r (clock n) s
    ⟨r, reply.result.map r.shown⟩ :: observe rest (n + 1) s

/-- The state after requests, put one after the other. -/
def after : List Request → Nat → σ → σ
  | [], _, s => s
  | r :: rest, n, s => after rest (n + 1) (b.answer r (clock n) s).2

/-- What every request preserves holds after all of them. It may depend on how many requests were
put before. -/
theorem after_induction {P : Nat → σ → Prop} {requests : List Request}
    (step : ∀ r ∈ requests, ∀ n now s, P n s → P (n + 1) (b.answer r now s).2) {n : Nat} {s : σ}
    (h : P n s) : P (n + requests.length) (b.after clock requests n s) := by
  induction requests generalizing n s with
  | nil => exact h
  | cons r rest ih =>
    rw [List.length_cons, Nat.add_comm rest.length, ← Nat.add_assoc]
    exact ih (fun r hr => step r (List.mem_cons_of_mem _ hr))
      (step r List.mem_cons_self n (clock n) s h)

/-- Every one of some requests is allowed in the state that it meets. -/
def Allows (allowed : Request → σ → Prop) : List Request → Nat → σ → Prop
  | [], _, _ => True
  | r :: rest, n, s => allowed r s ∧ Allows allowed rest (n + 1) (b.answer r (clock n) s).2

instance decidableAllows (allowed : Request → σ → Prop) [∀ r s, Decidable (allowed r s)] :
    (requests : List Request) → (n : Nat) → (s : σ) →
      Decidable (b.Allows clock allowed requests n s)
  | [], _, _ => .isTrue trivial
  | r :: rest, n, s =>
    have := decidableAllows allowed rest (n + 1) (b.answer r (clock n) s).2
    inferInstanceAs (Decidable (_ ∧ _))

/-- What is allowed in every state is allowed in those that are met. -/
theorem allows_of_forall {allowed : Request → Prop} {requests : List Request}
    (h : ∀ r ∈ requests, allowed r) (n : Nat) (s : σ) :
    b.Allows clock (fun r _ => allowed r) requests n s := by
  induction requests generalizing n s with
  | nil => trivial
  | cons r rest ih =>
    exact ⟨h r List.mem_cons_self, ih (fun r hr => h r (List.mem_cons_of_mem _ hr)) _ _⟩

end

/-- **Simulation.** If related states answer every allowed request alike and are related afterwards,
then whole runs from related states are answered alike. How states are related may depend on how
many requests were put before. -/
theorem observe_congr {σ τ : Type} {a : Backend σ} {b : Backend τ} {R : Nat → σ → τ → Prop}
    {allowed : Request → τ → Prop} {bound : Nat}
    (step : ∀ n r now now' s t, n < bound → R n s t → allowed r t →
      (a.answer r now s).1.result.map r.shown = (b.answer r now' t).1.result.map r.shown ∧
        R (n + 1) (a.answer r now s).2 (b.answer r now' t).2)
    (clock clock' : Nat → Time) {requests : List Request} {n : Nat} {s : σ} {t : τ}
    (hn : n + requests.length ≤ bound) (h : R n s t)
    (ha : b.Allows clock' allowed requests n t) :
    a.observe clock requests n s = b.observe clock' requests n t := by
  induction requests generalizing n s t with
  | nil => rfl
  | cons r rest ih =>
    rw [List.length_cons] at hn
    obtain ⟨hr, hrest⟩ := ha
    obtain ⟨hresult, hafter⟩ := step n r (clock n) (clock' n) s t (by omega) h hr
    simp only [observe]
    rw [hresult, ih (by omega) hafter hrest]

end Backend

end BlobStore
