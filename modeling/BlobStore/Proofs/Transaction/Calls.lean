import BlobStore.Proofs.Transaction.Clients

/-!
# The calls of a transaction to its lock

A storage can be made to record what is called on its locks; it answers as before. The life of a
transaction is what happens to it, turn by turn: its owner polls its acquire or cancels it, asks
requests, and commits, aborts or drops it, or runs a body in it. Between these turns others may do
anything to the state. Whatever the storage and its locks do, the calls of a transaction are few and
in one order: its lock is given back once if it was granted, and then dropped.

## Main definitions

* `LockCall`, `Storage.recorded`: a storage that records the calls to its locks
* `Turn`, `Stage.turn`: what happens in the life of a transaction
* `Storage.life`: a transaction from its beginning on
* `Stage.Parting`: the calls that end the life of a lock

## Main results

* `Stage.turn_recorded`: a recording storage does what the storage does
* `Stage.Recounts.turn`: what was called on a lock, by the stage of its transaction
-/

namespace BlobStore

/-! ## Recording storages -/

/-- A call to a lock, with the result of giving it back. -/
inductive LockCall
  | make (keys : List Key)
  | request (lock : LockId)
  | poll (ticket : TicketId)
  | cancel (ticket : TicketId)
  | release (lock : LockId) (result : Except StorageError Unit)
  | discard (lock : LockId)

section

variable {σ : Type}

/-- Locks whose calls are recorded. -/
def Locking.recorded (L : Locking σ) : Locking (σ × List LockCall) where
  make keys p :=
    let (lock, s) := L.make keys p.1
    (lock, s, p.2 ++ [.make keys])
  request lock p :=
    let (ticket, s) := L.request lock p.1
    (ticket, s, p.2 ++ [.request lock])
  poll t p :=
    let (progress, events, s) := L.poll t p.1
    (progress, events, s, p.2 ++ [.poll t])
  cancel t p := (L.cancel t p.1, p.2 ++ [.cancel t])
  release lock p :=
    let (reply, s) := L.release lock p.1
    (reply, s, p.2 ++ [.release lock reply.result])
  discard lock p := (L.discard lock p.1, p.2 ++ [.discard lock])

/-- A storage that records the calls to its locks. -/
def Storage.recorded (S : Storage σ) : Storage (σ × List LockCall) where
  toBackend := S.toBackend.within Part.first
  locking := S.locking.recorded

/-- A body that runs beside the record. -/
def TransactionBody.recorded {α : Type} (body : TransactionBody σ α) :
    TransactionBody (σ × List LockCall) α := fun tx => Part.first.step (body tx)

/-! ## The life of a transaction -/

/-- What happens in the life of a transaction. -/
inductive Turn (σ : Type) : Type 1
  /-- The acquire is polled. -/
  | poll
  /-- The acquire is cancelled. -/
  | withdraw
  | ask (r : Request) (now : Time)
  | finish (ending : Ending)
  /-- A body is run, and the transaction ended by its outcome. -/
  | conclude {α : Type} (body : TransactionBody σ α)
  /-- The transaction is dropped; giving back its lock is left to the background. -/
  | drop
  /-- The background gives back the lock of a dropped transaction. -/
  | giveBack
  /-- Others do something to the state. -/
  | others (change : σ → σ)

/-- The same turn over a storage that records its calls. -/
def Turn.recorded : Turn σ → Turn (σ × List LockCall)
  | .poll => .poll
  | .withdraw => .withdraw
  | .ask r now => .ask r now
  | .finish ending => .finish ending
  | .conclude body => .conclude body.recorded
  | .drop => .drop
  | .giveBack => .giveBack
  | .others change => .others fun p => (change p.1, p.2)

variable (S : Storage σ) (pending : PendingTransaction)

/-- The stage of a transaction after a turn, and the state. What does not fit the stage changes
nothing. -/
def Stage.turn (stage : Stage) (turn : Turn σ) (s : σ) : Stage × σ :=
  match stage, turn with
  | .waiting, .poll =>
    match S.poll pending s with
    | (none, _, s) => (.waiting, s)
    | (some (.ok tx), _, s) => (.active tx, s)
    | (some (.error e), _, s) => (.refused e, s)
  | .waiting, .withdraw => (.withdrawn, S.withdraw pending s)
  | .active tx, .ask r now => (.active tx, (tx.answer S r now s).2)
  | .active tx, .finish ending =>
    let (reply, s) := tx.finish S ending s
    (.ended reply.result, s)
  | .active tx, .conclude body =>
    let (reply, s) := tx.conclude S body s
    (.ended (reply.result.map fun _ => ()), s)
  | .active tx, .drop => (.leaving tx, s)
  | .leaving tx, .giveBack => (.ended (.ok ()), (tx.giveBack S s).2)
  | stage, .others change => (stage, change s)
  | stage, _ => (stage, s)

/-- A transaction through one turn after the other. -/
def Stage.live (p : Stage × σ) (turns : List (Turn σ)) : Stage × σ :=
  turns.foldl (fun p turn => p.1.turn S pending turn p.2) p

/-- A transaction over keys from its beginning on. -/
def Storage.life (keys : List Key) (turns : List (Turn σ)) (s : σ) :
    PendingTransaction × Stage × σ :=
  let (pending, s) := S.begin keys s
  (pending, Stage.live S pending (.waiting, s) turns)

/-- What the end of an open transaction calls on its lock. -/
def Transaction.leave (tx : Transaction) (s : σ) : List LockCall :=
  [.release tx.lock (S.locking.release tx.lock s).1.result, .discard tx.lock]

/-- What a turn calls on the lock of a transaction. -/
def Stage.calls (stage : Stage) (turn : Turn σ) (s : σ) : List LockCall :=
  match stage, turn with
  | .waiting, .poll =>
    match (S.locking.poll pending.ticket s).1 with
    | .waiting | .granted => [.poll pending.ticket]
    | .refused _ => [.poll pending.ticket, .discard pending.lock]
  | .waiting, .withdraw => [.cancel pending.ticket, .discard pending.lock]
  | .active tx, .finish _ => tx.leave S s
  | .active tx, .conclude body => tx.leave S (body tx s).2
  | .leaving tx, .giveBack => tx.leave S s
  | _, _ => []

/-- What turns call on the lock of a transaction, one after the other. -/
def Stage.record : Stage × σ → List (Turn σ) → List LockCall
  | _, [] => []
  | p, turn :: rest =>
    p.1.calls S pending turn p.2 ++ Stage.record (p.1.turn S pending turn p.2) rest

/-- A transaction that has come to its end. -/
def Stage.isOver : Stage → Bool
  | .withdrawn | .refused _ | .ended _ => true
  | .waiting | .active _ | .leaving _ => false

/-! ## The state after the end -/

section

variable (tx : Transaction) (s : σ)

theorem Transaction.finish_state (ending : Ending) : (tx.finish S ending s).2 =
    S.locking.discard tx.lock (S.locking.release tx.lock s).2 := by
  unfold finish
  dsimp only
  cases (S.locking.release tx.lock s).1.result <;> rfl

theorem Transaction.conclude_state {α : Type} (body : TransactionBody σ α) :
    (tx.conclude S body s).2 =
      S.locking.discard tx.lock (S.locking.release tx.lock (body tx s).2).2 := by
  unfold conclude
  dsimp only
  cases (body tx s).1.result with
  | ok value => exact finish_state S tx (body tx s).2 .committed
  | error e => exact finish_state S tx (body tx s).2 .aborted

end

/-- A body run in a transaction that need not wait is one way to live it. -/
theorem Storage.transactionally_state {α : Type} (S : Storage σ) (keys : List Key)
    (body : TransactionBody σ α) (s : σ) :
    (S.transactionally keys body s).2 =
      (S.life keys [.poll, .conclude body, .withdraw] s).2.2 := by
  unfold transactionally life
  simp only [Stage.live, List.foldl_cons, List.foldl_nil, Stage.turn]
  rcases S.poll (S.begin keys s).1 (S.begin keys s).2 with ⟨_ | _ | tx, events, after⟩ <;> rfl

/-! ## What is recorded -/

variable {S pending} {s : σ} {calls : List LockCall}

theorem Transaction.finish_recorded (tx : Transaction) (ending : Ending) :
    tx.finish S.recorded ending (s, calls) =
      ((tx.finish S ending s).1, (tx.finish S ending s).2, calls ++ tx.leave S s) := by
  have hcalls : ∀ call call' : LockCall, calls ++ [call] ++ [call'] = calls ++ [call, call'] := by
    simp
  unfold finish leave
  simp only [Storage.recorded, Locking.recorded, Backend.within, hcalls]
  cases (S.locking.release tx.lock s).1.result <;> rfl

theorem Transaction.giveBack_recorded (tx : Transaction) :
    tx.giveBack S.recorded (s, calls) =
      ((tx.giveBack S s).1, (tx.giveBack S s).2, calls ++ tx.leave S s) := by
  unfold giveBack leave
  simp only [Storage.recorded, Locking.recorded, List.append_assoc, List.cons_append,
    List.nil_append]

theorem Transaction.conclude_recorded {α : Type} (tx : Transaction) (body : TransactionBody σ α) :
    tx.conclude S.recorded body.recorded (s, calls) =
      ((tx.conclude S body s).1, (tx.conclude S body s).2,
        calls ++ tx.leave S (body tx s).2) := by
  unfold conclude
  simp only [TransactionBody.recorded, Part.step, Part.first]
  cases (body tx s).1.result with
  | ok value => simp only [finish_recorded]
  | error e => simp only [finish_recorded]

theorem Storage.poll_recorded :
    S.recorded.poll pending (s, calls) =
      ((S.poll pending s).1, (S.poll pending s).2.1, (S.poll pending s).2.2,
        calls ++ Stage.waiting.calls S pending .poll s) := by
  rcases hp : S.locking.poll pending.ticket s with ⟨progress, events, after⟩
  have hrecorded : S.recorded.locking.poll pending.ticket (s, calls) =
      (progress, events, after, calls ++ [.poll pending.ticket]) := by
    simp only [recorded, Locking.recorded, hp]
  unfold poll Stage.calls
  simp only [hrecorded, hp]
  cases progress with
  | waiting => rfl
  | granted => rfl
  | refused e => simp [recorded, Locking.recorded]

theorem Storage.withdraw_recorded :
    S.recorded.withdraw pending (s, calls) =
      (S.withdraw pending s, calls ++ [.cancel pending.ticket, .discard pending.lock]) := by
  simp [withdraw, recorded, Locking.recorded]

/-- A recording storage does what the storage does, and records what is called. -/
theorem Stage.turn_recorded (stage : Stage) (turn : Turn σ) :
    stage.turn S.recorded pending turn.recorded (s, calls) =
      ((stage.turn S pending turn s).1, (stage.turn S pending turn s).2,
        calls ++ stage.calls S pending turn s) := by
  cases turn with
  | poll =>
    cases stage with
    | waiting =>
      simp only [Turn.recorded, Stage.turn, Storage.poll_recorded]
      rcases S.poll pending s with ⟨_ | _ | _, events, after⟩ <;> rfl
    | _ => simp [Turn.recorded, Stage.turn, Stage.calls]
  | withdraw =>
    cases stage with
    | waiting => simp only [Turn.recorded, Stage.turn, Storage.withdraw_recorded, Stage.calls]
    | _ => simp [Turn.recorded, Stage.turn, Stage.calls]
  | ask r now =>
    cases stage with
    | active tx =>
      simp only [Turn.recorded, Stage.turn, Stage.calls, Transaction.answer, List.append_nil]
      cases tx.outside? r <;> rfl
    | _ => simp [Turn.recorded, Stage.turn, Stage.calls]
  | finish ending =>
    cases stage with
    | active tx =>
      simp only [Turn.recorded, Stage.turn, Stage.calls, Transaction.finish_recorded]
    | _ => simp [Turn.recorded, Stage.turn, Stage.calls]
  | conclude body =>
    cases stage with
    | active tx =>
      simp only [Turn.recorded, Stage.turn, Stage.calls, Transaction.conclude_recorded]
    | _ => simp [Turn.recorded, Stage.turn, Stage.calls]
  | drop => cases stage <;> simp [Turn.recorded, Stage.turn, Stage.calls]
  | giveBack =>
    cases stage with
    | leaving tx =>
      simp only [Turn.recorded, Stage.turn, Stage.calls, Transaction.giveBack_recorded]
    | _ => simp [Turn.recorded, Stage.turn, Stage.calls]
  | others change => cases stage <;> simp [Turn.recorded, Stage.turn, Stage.calls]

/-! ## The order of the calls -/

/-- The calls by which a lock is left when its transaction has come to a stage: none before the end
of the transaction; in the end the lock is dropped, and given back before if it was granted. -/
def Stage.Parting (pending : PendingTransaction) : Stage → List LockCall → Prop
  | .waiting, calls => calls = []
  | .active tx, calls | .leaving tx, calls => tx.lock = pending.lock ∧ calls = []
  | .withdrawn, calls => calls = [.cancel pending.ticket, .discard pending.lock]
  | .refused _, calls => calls = [.discard pending.lock]
  | .ended _, calls =>
    ∃ result, calls = [.release pending.lock result, .discard pending.lock]

/-- All calls to the lock of a transaction that has come to a stage: the lock was made and
requested, the request was polled some times, and then the lock was left. -/
def Stage.Recounts (keys : List Key) (pending : PendingTransaction) (stage : Stage)
    (calls : List LockCall) : Prop :=
  ∃ polls parting, stage.Parting pending parting ∧
    calls = .make keys :: .request pending.lock ::
      (List.replicate polls (.poll pending.ticket) ++ parting)

/-- The end of an open transaction: its lock is given back, and dropped. -/
theorem Stage.Recounts.ended {keys : List Key} {tx : Transaction}
    (h : (Stage.active tx).Recounts keys pending calls) (s : σ)
    (outcome : Except StorageError Unit) :
    (Stage.ended outcome).Recounts keys pending (calls ++ tx.leave S s) := by
  obtain ⟨polls, parting, ⟨hlock, rfl⟩, rfl⟩ := h
  have hleave : (Stage.ended outcome).Parting pending (tx.leave S s) :=
    ⟨(S.locking.release tx.lock s).1.result, by rw [← hlock]; rfl⟩
  exact ⟨polls, tx.leave S s, hleave, by simp⟩

theorem Stage.turn_poll : Stage.waiting.turn S pending .poll s =
    match S.locking.poll pending.ticket s with
    | (.waiting, _, s) => (.waiting, s)
    | (.granted, _, s) => (.active ⟨pending.keys, pending.lock⟩, s)
    | (.refused e, _, s) => (.refused e, S.locking.discard pending.lock s) := by
  simp only [turn, Storage.poll]
  rcases S.locking.poll pending.ticket s with ⟨_ | _ | _, events, after⟩ <;> rfl

/-- Each turn calls on the lock what follows the calls so far. -/
theorem Stage.Recounts.turn {keys : List Key} {stage : Stage}
    (h : stage.Recounts keys pending calls) (turn : Turn σ) (s : σ) :
    (stage.turn S pending turn s).1.Recounts keys pending
      (calls ++ stage.calls S pending turn s) := by
  have hsame : stage.Recounts keys pending (calls ++ []) := by simpa using h
  cases stage with
  | waiting =>
    obtain ⟨polls, parting, hparting, rfl⟩ := h
    obtain rfl : parting = [] := hparting
    cases turn with
    | poll =>
      rw [turn_poll]
      simp only [calls]
      rcases S.locking.poll pending.ticket s with ⟨_ | _ | _, events, after⟩
      · exact ⟨polls + 1, [], rfl, by simp [List.replicate_succ']⟩
      · exact ⟨polls + 1, [], ⟨rfl, rfl⟩, by simp [List.replicate_succ']⟩
      · exact ⟨polls + 1, [.discard pending.lock], rfl, by simp [List.replicate_succ']⟩
    | withdraw => exact ⟨polls, _, rfl, by simp [Stage.calls]⟩
    | _ => exact hsame
  | active tx =>
    cases turn with
    | finish ending => exact h.ended _ _
    | conclude body => exact h.ended _ _
    | drop => exact hsame
    | _ => exact hsame
  | leaving tx =>
    cases turn with
    | giveBack => exact Recounts.ended h _ _
    | _ => exact hsame
  | withdrawn => cases turn <;> exact hsame
  | refused cause => cases turn <;> exact hsame
  | ended outcome => cases turn <;> exact hsame

/-! ## From the beginning -/

theorem Stage.live_concat (p : Stage × σ) (turns : List (Turn σ)) (turn : Turn σ) :
    Stage.live S pending p (turns ++ [turn]) =
      (Stage.live S pending p turns).1.turn S pending turn (Stage.live S pending p turns).2 := by
  simp [live]

theorem Stage.live_recorded (turns : List (Turn σ)) (stage : Stage) (s : σ)
    (calls : List LockCall) :
    Stage.live S.recorded pending (stage, s, calls) (turns.map Turn.recorded) =
      ((Stage.live S pending (stage, s) turns).1, (Stage.live S pending (stage, s) turns).2,
        calls ++ Stage.record S pending (stage, s) turns) := by
  induction turns generalizing stage s calls with
  | nil => simp [live, record]
  | cons turn rest ih =>
    simp only [live, List.map_cons, List.foldl_cons] at ih ⊢
    simp only [turn_recorded, ih, record, List.append_assoc]

theorem Stage.Recounts.live {keys : List Key} (turns : List (Turn σ)) {stage : Stage}
    (h : stage.Recounts keys pending calls) (s : σ) :
    (Stage.live S pending (stage, s) turns).1.Recounts keys pending
      (calls ++ Stage.record S pending (stage, s) turns) := by
  induction turns generalizing stage s calls with
  | nil => simpa [Stage.live, record] using h
  | cons turn rest ih =>
    rw [record, ← List.append_assoc]
    exact ih (h.turn turn s) (stage.turn S pending turn s).2

theorem Storage.life_eq (S : Storage σ) (keys : List Key) (turns : List (Turn σ)) (s : σ) :
    S.life keys turns s = ((S.begin keys s).1,
      Stage.live S (S.begin keys s).1 (.waiting, (S.begin keys s).2) turns) := rfl

/-- A recording storage lets a transaction live as the storage does, and records its calls. -/
theorem Storage.life_recorded (S : Storage σ) (keys : List Key) (turns : List (Turn σ)) (s : σ) :
    S.recorded.life keys (turns.map Turn.recorded) (s, []) =
      ((S.life keys turns s).1, (S.life keys turns s).2.1, (S.life keys turns s).2.2,
        [.make (Key.ordered keys), .request (S.life keys turns s).1.lock] ++
          Stage.record S (S.life keys turns s).1 (.waiting, (S.begin keys s).2) turns) := by
  have hbegin : S.recorded.begin keys (s, []) =
      ((S.begin keys s).1, (S.begin keys s).2,
        [.make (Key.ordered keys), .request (S.begin keys s).1.lock]) := rfl
  simp only [life, hbegin, Stage.live_recorded]

end

end BlobStore
