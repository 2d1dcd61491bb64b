import BlobStore.Proofs.Transaction.Clients
import BlobStore.Upload

/-!
# Storages in use

A storage is used by requests, by transactions and by uploads, in any order and with any results.
Every deed has an upshot for whoever does it, and is reported on.

## Main definitions

* `InUse`: a storage in use, with the transactions and uploads that were begun
* `Deed`, `Upshot`, `Account`: what can be done, what it shows, and what is reported besides
* `Storage.transact`, `Storage.upload`: deeds on a transaction and on an upload
* `Storage.perform`, `Storage.use`: any deed, and deeds one after the other
* `InHand`: the drafts of the uploads that go on
* `Backend.Guards`: what goes on to hold of a backend and of the drafts in hand

## Main results

* `Backend.Guards.perform`, `Backend.Guards.use`: it holds after any use of the backend with locks
-/

namespace BlobStore

/-! ## Deeds -/

/-- A storage in use: its state, and the transactions and uploads that were begun, each in the order
in which they were. An upload is there until its result is heard or it is given up. -/
structure InUse (σ : Type) where
  store : σ
  transactions : List (PendingTransaction × Stage) := []
  uploads : List (Option Upload) := []

/-- What can be done with a transaction that was asked for. -/
inductive TransactionDeed
  | poll
  | withdraw
  | ask (r : Request)
  | finish (ending : Ending)
  /-- The transaction is dropped; where there is a background, its lock is given back later. -/
  | drop (background : Bool)
  | giveBack

/-- What can be done with an upload. -/
inductive UploadDeed
  | feed (piece : Item)
  | finish
  | cancel

/-- What can be done with a storage. -/
inductive Deed
  | ask (r : Request)
  | begin (keys : List Key)
  | transact (i : Nat) (deed : TransactionDeed)
  | start (key : Key) (size : Option Nat)
  | upload (i : Nat) (deed : UploadDeed)

/-- What comes of a deed. -/
inductive Upshot
  | nothing
  /-- The storage has answered a request. -/
  | answered (x : Exchange)
  /-- A transaction has refused a request, which the storage was not asked. -/
  | refused (x : Exchange)
  | begun (pending : PendingTransaction)
  | polled (progress : Option (Except StorageError Transaction))
  /-- A transaction has ended, or an upload that had ended before has been heard of. -/
  | ended (result : Except StorageError Unit)

/-- The exchange with the storage that has come of a deed. -/
def Upshot.served : Upshot → List Exchange
  | .answered x => [x]
  | .nothing | .refused _ | .begun _ | .polled _ | .ended _ => []

/-- What comes of a deed, with what is reported on it. -/
structure Account where
  upshot : Upshot
  events : List Event := []

namespace Account

/-- Nothing came of a deed. -/
def nothing : Account := ⟨.nothing, []⟩

/-- A request was answered. -/
def answered (r : Request) (reply : Reply r.Answer) : Account :=
  ⟨.answered ⟨r, reply.result⟩, reply.events⟩

end Account

/-! ## What comes of them -/

section

variable {σ : Type} (S : Storage σ)

/-- A deed on a transaction: its stage afterwards, and the state. What does not fit the stage
changes nothing. -/
def Storage.transact (pending : PendingTransaction) (stage : Stage) (deed : TransactionDeed)
    (now : Time) (s : σ) : Account × Stage × σ :=
  match stage, deed with
  | .waiting, .poll =>
    match S.poll pending s with
    | (none, events, s) => (⟨.polled none, events⟩, .waiting, s)
    | (some (.ok tx), events, s) => (⟨.polled (some (.ok tx)), events⟩, .active tx, s)
    | (some (.error e), events, s) => (⟨.polled (some (.error e)), events⟩, .refused e, s)
  | .waiting, .withdraw => (.nothing, .withdrawn, S.withdraw pending s)
  | .active tx, .ask r =>
    match tx.outside? r with
    | some key => (⟨.refused ⟨r, .error (.outsideTransaction key)⟩, []⟩, .active tx, s)
    | none =>
      let (reply, s) := S.answer r now s
      (.answered r reply, .active tx, s)
  | .active tx, .finish ending =>
    let (reply, s) := tx.finish S ending s
    (⟨.ended reply.result, reply.events⟩, .ended reply.result, s)
  | .active tx, .drop true => (⟨.nothing, (tx.drop S false s).1⟩, .leaving tx, s)
  | .active tx, .drop false =>
    let (events, s) := tx.drop S false s
    (⟨.nothing, events⟩, .ended (.ok ()), s)
  | .leaving tx, .giveBack =>
    let (events, s) := tx.giveBack S s
    (⟨.nothing, events⟩, .ended (.ok ()), s)
  | stage, _ => (.nothing, stage, s)

/-- The exchange of an upload that has ended; its content is consumed. -/
def Upload.exchange (u : Upload) (result : Except StorageError Unit) : Exchange :=
  ⟨.save u.key (.ofStream [] u.size), result⟩

/-- A new upload. -/
def Storage.startUpload (key : Key) (size : Option Nat) (now : Time) (s : σ) :
    Account × Upload × σ :=
  let (events, u, s) := Upload.start S key size now s
  match u.stage with
  | .receiving _ => (⟨.nothing, events⟩, u, s)
  | .ended result => (⟨.answered (u.exchange result), events⟩, u, s)

/-- A deed on an upload, which is gone after its end. -/
def Storage.upload (u : Upload) (deed : UploadDeed) (now : Time) (s : σ) :
    Account × Option Upload × σ :=
  match u.stage, deed with
  | .receiving _, .feed piece =>
    let (events, u, s) := u.feed S piece now s
    match u.stage with
    | .receiving _ => (⟨.nothing, events⟩, some u, s)
    | .ended result => (⟨.answered (u.exchange result), events⟩, some u, s)
  | .receiving _, .finish =>
    let (reply, s) := u.finish S now s
    (⟨.answered (u.exchange reply.result), reply.events⟩, none, s)
  | .ended _, .feed _ => (.nothing, some u, s)
  | .ended result, .finish => (⟨.ended result, []⟩, none, s)
  | _, .cancel =>
    let (events, s) := u.cancel S s
    (⟨.nothing, events⟩, none, s)

/-- A deed, and what comes of it. -/
def Storage.perform (deed : Deed) (now : Time) (u : InUse σ) : Account × InUse σ :=
  match deed with
  | .ask r =>
    let (reply, store) := S.answer r now u.store
    (.answered r reply, { u with store })
  | .begin keys =>
    let (pending, store) := S.begin keys u.store
    (⟨.begun pending, []⟩,
      { u with store, transactions := u.transactions ++ [(pending, .waiting)] })
  | .transact i deed =>
    match u.transactions[i]? with
    | none => (.nothing, u)
    | some (pending, stage) =>
      let (account, stage, store) := S.transact pending stage deed now u.store
      (account, { u with store, transactions := u.transactions.set i (pending, stage) })
  | .start key size =>
    let (account, upload, store) := S.startUpload key size now u.store
    (account, { u with store, uploads := u.uploads ++ [some upload] })
  | .upload i deed =>
    match u.uploads[i]? with
    | none | some none => (.nothing, u)
    | some (some upload) =>
      let (account, upload, store) := S.upload upload deed now u.store
      (account, { u with store, uploads := u.uploads.set i upload })

/-- Deeds, one after the other; the clock tells the time of each. -/
def Storage.use (clock : Nat → Time) : List Deed → Nat → InUse σ → List Account × InUse σ
  | [], _, u => ([], u)
  | deed :: rest, n, u =>
    let (account, u) := S.perform deed (clock n) u
    let (accounts, u) := use clock rest (n + 1) u
    (account :: accounts, u)

end

/-! ## What every use preserves -/

section

variable {σ : Type} {b : Backend σ} {holds : σ → (Draft → Prop) → Prop}

/-- The drafts of the uploads that go on. -/
def InHand (uploads : List (Option Upload)) (draft : Draft) : Prop :=
  ∃ upload, some upload ∈ uploads ∧ upload.stage = .receiving draft

theorem InHand.of_set {uploads : List (Option Upload)} {i : Nat} {upload? : Option Upload}
    {draft : Draft} (h : InHand (uploads.set i upload?) draft) :
    InHand uploads draft ∨ ∃ upload, upload? = some upload ∧ upload.stage = .receiving draft := by
  obtain ⟨upload, hm, hstage⟩ := h
  rcases List.mem_or_eq_of_mem_set hm with hm | he
  · exact Or.inl ⟨upload, hm, hstage⟩
  · exact Or.inr ⟨upload, he.symm, hstage⟩

/-- What holds of the state of a backend and of the drafts in hand goes on to hold, whatever the
backend is asked. -/
structure Backend.Guards (b : Backend σ) (holds : σ → (Draft → Prop) → Prop) : Prop where
  fewer : ∀ {s inHand others}, holds s inHand → (∀ draft, others draft → inHand draft) →
    holds s others
  answer : ∀ r now {s inHand}, holds s inHand → holds (b.answer r now s).2 inHand
  start : ∀ key size now {s inHand}, holds s inHand →
    holds (b.intake.start key size now s).2 fun draft =>
      inHand draft ∨ (b.intake.start key size now s).1.result = .ok draft
  append : ∀ draft piece now {s inHand}, holds s inHand → inHand draft →
    holds (b.intake.append draft piece now s).2 fun other =>
      inHand other ∨ other = (b.intake.append draft piece now s).1
  finish : ∀ key size draft now {s inHand}, holds s inHand → inHand draft →
    holds (b.intake.finish key size draft now s).2 inHand
  fail : ∀ key size draft cause now {s inHand}, holds s inHand → inHand draft →
    holds (b.intake.fail key size draft cause now s).2 inHand
  abandon : ∀ draft {s inHand}, holds s inHand → inHand draft →
    holds (b.intake.abandon draft s).2 inHand

/-! What is done with the locks of a backend leaves its state as it is. -/

theorem Backend.poll_locked (b : Backend σ) (pending : PendingTransaction) (s : σ × LockTable) :
    (b.locked.poll pending s).2.2.1 = s.1 := by
  have hpoll : (b.locked.locking.poll pending.ticket s).2.2.1 = s.1 := rfl
  unfold Storage.poll
  rcases hp : b.locked.locking.poll pending.ticket s with ⟨_ | _ | e, events, s'⟩
  all_goals
    rw [hp] at hpoll
    exact hpoll

theorem Backend.finish_locked (b : Backend σ) (tx : Transaction) (ending : Ending)
    (s : σ × LockTable) : (tx.finish b.locked ending s).2.1 = s.1 := by
  unfold Transaction.finish
  simp only
  split <;> rfl

/-- Of what is done with a transaction, only its requests reach the backend. -/
theorem Backend.transact_locked (b : Backend σ) (pending : PendingTransaction) (stage : Stage)
    (deed : TransactionDeed) (now : Time) (s : σ × LockTable) :
    (b.locked.transact pending stage deed now s).2.2.1 = s.1 ∨
      ∃ r, (b.locked.transact pending stage deed now s).2.2.1 = (b.answer r now s.1).2 := by
  unfold Storage.transact
  split
  · have hpoll := b.poll_locked pending s
    left
    split
    all_goals
      rename_i he
      rw [he] at hpoll
      exact hpoll
  · exact Or.inl rfl
  · rename_i tx r
    split
    · exact Or.inl rfl
    · exact Or.inr ⟨r, rfl⟩
  · exact Or.inl (b.finish_locked _ _ s)
  all_goals exact Or.inl rfl

namespace Backend.Guards

variable {u : InUse (σ × LockTable)}

/-- A deed on an upload. -/
theorem upload (h : b.Guards holds) {s : σ × LockTable} {uploads : List (Option Upload)} {i : Nat}
    {upload : Upload} (hi : uploads[i]? = some (some upload)) (hs : holds s.1 (InHand uploads))
    (deed : UploadDeed) (now : Time) :
    holds (b.locked.upload upload deed now s).2.2.1
      (InHand (uploads.set i (b.locked.upload upload deed now s).2.1)) := by
  have hm : some upload ∈ uploads := List.mem_of_getElem? hi
  have hended : ∀ {after : σ} {upload? : Option Upload}, holds after (InHand uploads) →
      (∀ upload, upload? = some upload → ∃ result, upload.stage = .ended result) →
      holds after (InHand (uploads.set i upload?)) := by
    intro after upload? hafter hstage
    refine h.fewer hafter fun draft hd => ?_
    rcases hd.of_set with hd | ⟨upload, he, hreceiving⟩
    · exact hd
    · obtain ⟨result, hresult⟩ := hstage upload he
      rw [hresult] at hreceiving
      cases hreceiving
  obtain ⟨key, size, draft | result⟩ := upload
  · have hdraft : InHand uploads draft := ⟨_, hm, rfl⟩
    cases deed with
    | feed piece =>
      cases piece with
      | chunk bytes =>
        refine h.fewer (h.append draft bytes now hs hdraft) fun other ho => ?_
        rcases ho.of_set with ho | ⟨upload, he, hreceiving⟩
        · exact Or.inl ho
        · cases he
          cases hreceiving
          exact Or.inr rfl
      | failure cause =>
        refine hended (h.fail key size draft cause now hs hdraft) fun upload he => ?_
        cases he
        exact ⟨_, rfl⟩
    | finish => exact hended (h.finish key size draft now hs hdraft) (by simp [Storage.upload])
    | cancel => exact hended (h.abandon draft hs hdraft) (by simp [Storage.upload])
  · cases deed with
    | feed piece =>
      refine hended hs fun upload he => ?_
      cases he
      exact ⟨_, rfl⟩
    | finish | cancel => exact hended hs (by simp [Storage.upload])

/-- A new upload. -/
theorem startUpload (h : b.Guards holds) {s : σ × LockTable} {uploads : List (Option Upload)}
    (hs : holds s.1 (InHand uploads)) (key : Key) (size : Option Nat) (now : Time) :
    holds (b.locked.startUpload key size now s).2.2.1
      (InHand (uploads ++ [some (b.locked.startUpload key size now s).2.1])) := by
  have hstart := h.start key size now hs
  have hlocked : b.locked.intake.start key size now s = ((b.intake.start key size now s.1).1,
      (b.intake.start key size now s.1).2, s.2) := rfl
  unfold Storage.startUpload Upload.start
  rw [hlocked]
  generalize b.intake.start key size now s.1 = started at hstart ⊢
  obtain ⟨⟨result, events⟩, after⟩ := started
  cases result with
  | error e =>
    refine h.fewer hstart ?_
    rintro draft ⟨upload, hm, hstage⟩
    rcases List.mem_append.mp hm with hm | hm
    · exact Or.inl ⟨upload, hm, hstage⟩
    · cases List.mem_singleton.mp hm
      cases hstage
  | ok draft =>
    refine h.fewer hstart ?_
    rintro other ⟨upload, hm, hstage⟩
    rcases List.mem_append.mp hm with hm | hm
    · exact Or.inl ⟨upload, hm, hstage⟩
    · cases List.mem_singleton.mp hm
      cases hstage
      exact Or.inr rfl

/-- **Any deed.** -/
theorem perform (h : b.Guards holds) (hu : holds u.store.1 (InHand u.uploads)) (deed : Deed)
    (now : Time) :
    holds (b.locked.perform deed now u).2.store.1 (InHand (b.locked.perform deed now u).2.uploads)
    := by
  cases deed with
  | ask r => exact h.answer r now hu
  | begin keys => exact hu
  | transact i deed =>
    simp only [Storage.perform]
    split
    · exact hu
    · rename_i pending stage _
      rcases b.transact_locked pending stage deed now u.store with he | ⟨r, he⟩
      · simp only [he]
        exact hu
      · simp only [he]
        exact h.answer r now hu
  | start key size => exact h.startUpload hu key size now
  | upload i deed =>
    simp only [Storage.perform]
    split
    · exact hu
    · exact hu
    · rename_i upload hi
      exact h.upload hi hu deed now

theorem use (h : b.Guards holds) (hu : holds u.store.1 (InHand u.uploads))
    (clock : Nat → Time) (deeds : List Deed) (n : Nat) :
    holds (b.locked.use clock deeds n u).2.store.1
      (InHand (b.locked.use clock deeds n u).2.uploads) := by
  induction deeds generalizing n u with
  | nil => exact hu
  | cons deed rest ih => exact ih (h.perform hu deed (clock n)) (n + 1)

end Backend.Guards

end

end BlobStore
