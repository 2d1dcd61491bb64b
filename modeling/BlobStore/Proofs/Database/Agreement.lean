import BlobStore.Proofs.Content
import BlobStore.Proofs.Database

/-!
# Databases and memories answer runs alike

A database refuses a request for which a text, a value or the record of a row would be too long, and
stays as it was. All other requests of a run are answered as by a memory that the refused ones do
not reach.

## Main definitions

* `Backend.observeSieved`: what a backend answers to the requests that reach it
* `Database.sieve`: the requests of a run, with what those that are refused are answered

## Main results

* `Database.tooLong?_eq_none_iff`: what is too long
* `Database.agrees_with_memory`: both answer all runs alike, but for refused requests
* `Database.refuses_long_value`: where they differ
-/

namespace BlobStore

namespace Backend

variable {σ : Type} (b : Backend σ) (clock : Nat → Time)

/-- What comes of requests, put one after the other. Those with an error are answered with it, and
do not reach the backend. -/
def observeSieved : List (Request × Option StorageError) → Nat → σ → List Observation
  | [], _, _ => []
  | (r, some e) :: rest, n, s => ⟨r, .error e⟩ :: observeSieved rest (n + 1) s
  | (r, none) :: rest, n, s =>
    let (reply, s) := b.answer r (clock n) s
    ⟨r, reply.result.map r.shown⟩ :: observeSieved rest (n + 1) s

theorem observeSieved_of_none {sieved : List (Request × Option StorageError)}
    (h : ∀ entry ∈ sieved, entry.2 = none) (n : Nat) (s : σ) :
    b.observeSieved clock sieved n s = b.observe clock (sieved.map Prod.fst) n s := by
  induction sieved generalizing n s with
  | nil => rfl
  | cons entry rest ih =>
    obtain ⟨r, e⟩ := entry
    obtain ⟨rfl, hrest⟩ := List.forall_mem_cons.mp h
    simp only [observeSieved, List.map_cons, observe, ih hrest]

end Backend

namespace Database

variable {d : Database} {m : Memory} {path : String} {clock : Nat → Time}

theorem tooLong?_eq_none_iff {length : Nat} : tooLong? length = none ↔ length ≤ lengthLimit := by
  unfold tooLong? lengthLimit handoverLimit
  split
  · simp
    omega
  · simp

/-- The requests of a run, those that are refused with the errors that they are answered with. -/
def sieve (clock : Nat → Time) :
    List Request → Nat → Database → List (Request × Option StorageError)
  | [], _, _ => []
  | r :: rest, n, d =>
    (r, (d.refusal? (clock n) r).map (.backend r.subject)) ::
      sieve clock rest (n + 1) (d.answer r (clock n)).2

theorem map_fst_sieve (clock : Nat → Time) (requests : List Request) (n : Nat) (d : Database) :
    (sieve clock requests n d).map Prod.fst = requests := by
  induction requests generalizing n d with
  | nil => rfl
  | cons r rest ih => rw [sieve, List.map_cons, ih]

theorem Mirrors.observe (h : d.Mirrors m) (path : String) (clock clock' : Nat → Time)
    {requests : List Request} (hr : ∀ r ∈ requests, r.Textual) (n : Nat) :
    (backend path).observe clock requests n d =
      Memory.backend.observeSieved clock' (sieve clock requests n d) n m := by
  induction requests generalizing n d m with
  | nil => rfl
  | cons r rest ih =>
    obtain ⟨htextual, hrest⟩ := List.forall_mem_cons.mp hr
    show ⟨r, (d.answer r (clock n)).1.result.map r.shown⟩ ::
      (backend path).observe clock rest (n + 1) (d.answer r (clock n)).2 = _
    rw [sieve]
    cases hrefusal : d.refusal? (clock n) r with
    | some reason =>
      rw [answer_of_refusal hrefusal, ih h hrest]
      rfl
    | none =>
      rw [answer_of_accepted hrefusal]
      obtain ⟨hshown, hafter⟩ := h.perform htextual (clock n) (clock' n)
      rw [ih hafter hrest, hshown]
      rfl

/-- A file that accepts changes answers a run as its database does. -/
theorem observe_file {f : DatabaseFile} {requests : List Request} {n : Nat} {disk : Disk}
    (h : (f.backend path).Allows clock (fun _ s => f.Accepts s.1) requests n (disk, d)) :
    (f.backend path).observe clock requests n (disk, d) =
      (backend path).observe clock requests n d := by
  induction requests generalizing n disk d with
  | nil => rfl
  | cons r rest ih =>
    obtain ⟨haccepts, hrest⟩ := h
    obtain ⟨hreply, hafter⟩ := DatabaseFile.answer_eq haccepts path r (clock n) d
    have hsame : (f.answer path r (clock n) (disk, d)).2 =
        ((f.answer path r (clock n) (disk, d)).2.1, (d.answer r (clock n)).2) :=
      Prod.ext rfl hafter
    have hobserved := ih (hsame ▸ hrest)
    show ⟨r, (f.answer path r (clock n) (disk, d)).1.result.map r.shown⟩ ::
        (f.backend path).observe clock rest (n + 1) (f.answer path r (clock n) (disk, d)).2 =
      ⟨r, (d.answer r (clock n)).1.result.map r.shown⟩ ::
        (backend path).observe clock rest (n + 1) (d.answer r (clock n)).2
    rw [hreply, hsame, hobserved]

/-- **Agreement.** A database and a memory, both empty at first, are given a run of requests whose
keys are read back from their texts; a listing may also be of the root. Requests for which something
would be too long are refused by the database. The memory, which those do not reach, answers all
others alike; if there are none, both answer the whole run alike. So does a database in a file, as
long as the file accepts changes. -/
theorem agrees_with_memory (path : String) (clock clock' : Nat → Time) (requests : List Request)
    (h : ∀ r ∈ requests, r.Textual) :
    (backend path).observe clock requests 0 empty =
        Memory.backend.observeSieved clock' (sieve clock requests 0 empty) 0 Memory.empty ∧
      ((∀ entry ∈ sieve clock requests 0 empty, entry.2 = none) →
        (backend path).observe clock requests 0 empty =
          Memory.backend.observe clock' requests 0 Memory.empty) ∧
      ∀ (f : DatabaseFile) (d : Disk),
        (f.backend path).Allows clock (fun _ s => f.Accepts s.1) requests 0 (d, empty) →
        (f.backend path).observe clock requests 0 (d, empty) =
          (backend path).observe clock requests 0 empty := by
  have hobserved := mirrors_empty.observe path clock clock' h 0
  refine ⟨hobserved, fun hnone => ?_, fun f d haccepts => observe_file haccepts⟩
  rw [hobserved, Memory.backend.observeSieved_of_none clock' hnone, map_fst_sieve]

/-- A run over a key, one under it and one whose text comes between theirs; one save fails at its
second chunk. -/
def sampleRun : List Request :=
  [.save ⟨["a"]⟩ (.ofStream [.chunk [1], .chunk [2]] none),
    .save ⟨["a-"]⟩ (.ofStream [.chunk [3], .failure ⟨.other, "cut"⟩] none),
    .move ⟨["a"]⟩ ⟨["a", "b"]⟩, .list ⟨["a"]⟩, .value ⟨["a"]⟩, .metadata ⟨["a", "b"]⟩, .list .root]

theorem agrees_with_memory_on_sampleRun :
    (∀ r ∈ sampleRun, r.Textual) ∧
      (∀ entry ∈ sieve (fun n => ⟨n⟩) sampleRun 0 empty, entry.2 = none) ∧
      (sampleFile.backend "store.db").Allows (fun n => ⟨n⟩) (fun _ s => sampleFile.Accepts s.1)
        sampleRun 0 (sampleDisk, empty) ∧
      (backend "store.db").observe (fun n => ⟨n⟩) sampleRun 0 empty =
        Memory.backend.observe (fun _ => ⟨0⟩) sampleRun 0 Memory.empty ∧
      (sampleFile.backend "store.db").observe (fun n => ⟨n⟩) sampleRun 0 (sampleDisk, empty) =
        Memory.backend.observe (fun _ => ⟨0⟩) sampleRun 0 Memory.empty := by
  have h : ∀ r ∈ sampleRun, r.Textual := by decide
  have hnone : ∀ entry ∈ sieve (fun n => ⟨n⟩) sampleRun 0 empty, entry.2 = none := by
    decide +kernel
  have haccepts : (sampleFile.backend "store.db").Allows (fun n => ⟨n⟩)
      (fun _ s => sampleFile.Accepts s.1) sampleRun 0 (sampleDisk, empty) := by decide +kernel
  obtain ⟨-, hopen, hfile⟩ :=
    agrees_with_memory "store.db" (fun n => ⟨n⟩) (fun _ => ⟨0⟩) sampleRun h
  exact ⟨h, hnone, haccepts, hopen hnone,
    (hfile sampleFile sampleDisk haccepts).trans (hopen hnone)⟩

/-- A content of a little more than a thousand million bytes, which is never written out. -/
def longContent : Content :=
  .ofStream (List.replicate 10001 (.chunk (List.replicate 100000 0x61))) none

theorem length_longContent : longContent.length = .ok 1000100000 := by
  have h := lengthOf_replicate 10001 (List.replicate 100000 0x61)
  rw [List.length_replicate] at h
  unfold Content.length longContent
  exact h

theorem tooLong?_longContent : tooLong? 1000100000 = some "string or blob too big" := by decide

/-! What is saved is any content of that length, so that the long one is not unfolded. -/

theorem observe_save_long {content : Content} (h : content.length = .ok 1000100000) :
    (backend ":memory:").observe (fun n => ⟨n⟩) [.save ⟨["k"]⟩ content] 0 empty =
      [⟨.save ⟨["k"]⟩ content, .error (.backend ⟨["k"]⟩ "string or blob too big")⟩] := by
  have hkey : tooLong? (⟨["k"]⟩ : Key).text.utf8ByteSize = none := by decide +kernel
  have hrefusal : empty.refusal? ⟨0⟩ (.save ⟨["k"]⟩ content) = some "string or blob too big" := by
    simp only [refusal?, h, hkey, tooLong?_longContent, Option.none_or, Option.some_or]
  have hanswer := answer_of_refusal hrefusal
  show [(⟨_, (empty.answer (.save ⟨["k"]⟩ content) ⟨0⟩).1.result.map _⟩ : Observation)] = _
  rw [hanswer]
  rfl

theorem observe_save_memory {content : Content} {length : Nat} (h : content.length = .ok length) :
    Memory.backend.observe (fun n => ⟨n⟩) [.save ⟨["k"]⟩ content] 0 Memory.empty =
      [⟨.save ⟨["k"]⟩ content, .ok ()⟩] := by
  rw [Content.length_eq_drain] at h
  cases hdrain : content.drain with
  | error e => simp [hdrain, Except.map] at h
  | ok bytes =>
    simp only [Backend.observe, Memory.backend, Memory.answer, hdrain]
    rfl

/-- A memory takes a value that is too long for a database. -/
theorem refuses_long_value :
    (⟨["k"]⟩ : Key).Textual ∧
      (backend ":memory:").observe (fun n => ⟨n⟩) [.save ⟨["k"]⟩ longContent] 0 empty =
        [⟨.save ⟨["k"]⟩ longContent, .error (.backend ⟨["k"]⟩ "string or blob too big")⟩] ∧
      Memory.backend.observe (fun n => ⟨n⟩) [.save ⟨["k"]⟩ longContent] 0 Memory.empty =
        [⟨.save ⟨["k"]⟩ longContent, .ok ()⟩] :=
  ⟨by decide, observe_save_long length_longContent, observe_save_memory length_longContent⟩

end Database

end BlobStore
