import BlobStore.Logged
import BlobStore.Proofs.Lock.Line
import BlobStore.Proofs.Transaction.Calls
import BlobStore.View

/-!
# Locks given back

The lock of a transaction is its own: nobody else knows its number or that of its request. So
whatever others do with the lock table, the lock is held when its transaction gives it back, and
nothing is left of it in the table afterwards.

## Main definitions

* `LockAction.Spares`: an action that names neither a lock nor its request
* `LockTable.Reserved`: a lock with one request
* `Storage.LocksFrom`: a storage whose locks come from a lock table in its state
* `Stage.Tied`: what a transaction relies on, by its stage

## Main results

* `LockTable.Reserved.keeps`: what others do leaves a reserved lock alone
* `Stage.Tied.turn`: every turn keeps the tie of a transaction to its lock, and gives back no lock
  that is not held
* `Storage.gives_back_once`: a lock is given back once if it was granted, and then dropped; one from
  a lock table is held until then, and its keys are free afterwards
-/

namespace BlobStore

/-! ## A lock of one's own -/

/-- The action names neither a lock nor its request. -/
def LockAction.Spares (l : LockId) (t : TicketId) : LockAction → Prop
  | .make _ => True
  | .request l' | .release l' | .discard l' => l' ≠ l
  | .poll t' | .cancel t' => t' ≠ t

namespace LockTable

variable {table : LockTable} {l : LockId} {t : TicketId} {a : LockAction}

/-- There is one request for the lock, and it is for no other lock. -/
structure Reserved (l : LockId) (t : TicketId) (table : LockTable) : Prop where
  sound : table.Sound
  lock_lt : l < table.fresh
  ticket_lt : t < table.fresh
  tickets : ∀ u x, table.tickets.get? u = some x → (x.lock = l ↔ u = t)
  holder : ∀ l', table.holder l' = some t → l' = l

/-- A new lock is reserved for the first request for it. -/
theorem Sound.reserved (s : table.Sound) (keys : List Key) :
    Reserved (table.make keys).1 ((table.make keys).2.request (table.make keys).1).1
      ((table.make keys).2.request (table.make keys).1).2 := by
  have sm := s.make keys
  have hget := get?_make table keys
  refine ⟨sm.request hget, ?_, ?_, ?tickets, ?holder⟩
  · exact Nat.lt_succ_of_lt (Nat.lt_succ_self _)
  · exact Nat.lt_succ_self _
  case tickets =>
    intro u x hu
    rcases OrderedMap.get?_put_eq_some.mp hu with ⟨rfl, rfl⟩ | ⟨hne, hu⟩
    · exact ⟨fun _ => rfl, fun _ => rfl⟩
    · obtain ⟨h, hl, -⟩ := s.ticket_keys u x hu
      exact ⟨fun he => absurd he (Nat.ne_of_lt (s.lock_lt _ h hl)), fun he => absurd he.symm hne⟩
  case holder =>
    intro l' hl'
    obtain ⟨h, g, hl, hg, he⟩ := holder_eq_some_iff.mp hl'
    have hlt := sm.grant_lt l' h g hl hg
    exact absurd he (Nat.ne_of_lt hlt)

namespace Reserved

variable (r : Reserved l t table)

include r

/-- A reserved lock stays so, unless there is another request for it. -/
theorem act (ha : a ≠ .request l) : Reserved l t (table.act a) where
  sound := r.sound.act a
  lock_lt := Nat.lt_of_lt_of_le r.lock_lt (r.sound.fresh_le a)
  ticket_lt := Nat.lt_of_lt_of_le r.ticket_lt (r.sound.fresh_le a)
  tickets u x hu := by
    rcases r.sound.tickets_act hu with ⟨y, hy, he⟩ | ⟨rfl, rfl⟩
    · rw [← he]
      exact r.tickets u y hy
    · exact ⟨fun he => absurd (he ▸ rfl) ha, fun he => absurd he.symm (Nat.ne_of_lt r.ticket_lt)⟩
  holder l' h := by
    rcases r.sound.holder_act h with h | ⟨-, -, x, hx, he⟩
    · exact r.holder l' h
    · exact he.symm.trans ((r.tickets t x hx).mpr rfl)

/-- What others do is done to another lock. -/
theorem keeps (ha : a.Spares l t) : ∃ l', l ≠ l' ∧ Keeps l' table (table.act a) := by
  have hfresh : l ≠ table.fresh := Nat.ne_of_lt r.lock_lt
  cases a with
  | make keys => exact ⟨table.fresh, hfresh, keeps_make table keys⟩
  | request l' =>
    refine ⟨l', Ne.symm ha, ?_⟩
    simp only [LockTable.act]
    split
    · exact r.sound.keeps_request l'
    · exact Keeps.refl l' table
  | poll u =>
    cases hu : table.tickets.get? u with
    | none =>
      refine ⟨table.fresh, hfresh, ?_⟩
      simpa [LockTable.act, poll, hu] using Keeps.refl table.fresh table
    | some x =>
      exact ⟨x.lock, fun he => ha ((r.tickets u x hu).mp he.symm), (r.sound.poll_cases hu).1⟩
  | cancel u =>
    cases hu : table.tickets.get? u with
    | none =>
      refine ⟨table.fresh, hfresh, ?_⟩
      simpa [LockTable.act, cancel, hu] using Keeps.refl table.fresh table
    | some x =>
      refine ⟨x.lock, fun he => ha ((r.tickets u x hu).mp he.symm), keeps_cancel table ?_⟩
      intro y hy
      exact congrArg Ticket.lock (Option.some.inj (hy.symm.trans hu))
  | release l' => exact ⟨l', Ne.symm ha, keeps_release table l'⟩
  | discard l' => exact ⟨l', Ne.symm ha, r.sound.keeps_discard l'⟩

/-- When the lock is dropped, its request stands nowhere. -/
theorem not_mem_line (hl : table.locks.get? l = none) (k : Key) : t ∉ table.line k := by
  have hticket : table.tickets.get? t = none := by
    refine Option.eq_none_iff_forall_ne_some.mpr fun x hx => ?_
    obtain ⟨h, hlock, -⟩ := r.sound.ticket_keys t x hx
    rw [(r.tickets t x hx).mpr rfl, hl] at hlock
    cases hlock
  intro hmem
  rcases r.sound.mem_line hmem with (⟨x, hx, -⟩ | ⟨l', h, g, hl', hg, he, -⟩) | ⟨x, hx, -⟩
  · rw [hticket] at hx
    cases hx
  · rw [r.holder l' (holder_eq_some_iff.mpr ⟨h, g, hl', hg, he⟩), hl] at hl'
    cases hl'
  · rw [hticket] at hx
    cases hx

end Reserved

end LockTable

/-! ## Storages with a lock table -/

section

variable {σ : Type} {S : Storage σ} {table : σ → LockTable}

/-- The locks of a storage are those of a lock table in its state, and requests do not touch them.
Which keys of the table a lock is over is up to the storage. -/
structure Storage.LocksFrom (S : Storage σ) (table : σ → LockTable) : Prop where
  make : ∀ keys s, ∃ keys', (S.locking.make keys s).1 = ((table s).make keys').1 ∧
    table (S.locking.make keys s).2 = ((table s).make keys').2
  request : ∀ l s, (S.locking.request l s).1 = ((table s).request l).1 ∧
    table (S.locking.request l s).2 = ((table s).request l).2
  poll : ∀ t s, (S.locking.poll t s).1 = (if ((table s).poll t).1 then .granted else .waiting) ∧
    table (S.locking.poll t s).2.2 = ((table s).poll t).2
  cancel : ∀ t s, table (S.locking.cancel t s) = (table s).cancel t
  release : ∀ l s, (S.locking.release l s).1.result = ((table s).release l).1.mapError .lock ∧
    table (S.locking.release l s).2 = ((table s).release l).2
  discard : ∀ l s, table (S.locking.discard l s) = (table s).discard l
  answer : ∀ r now s, table (S.answer r now s).2 = table s

/-- A backend with a lock table beside its state has its locks from there. -/
theorem Backend.locksFrom_locked (b : Backend σ) : b.locked.LocksFrom Prod.snd where
  make keys s := ⟨keys, rfl, rfl⟩
  request l s := ⟨rfl, rfl⟩
  poll t s := by
    simp only [locked, Locking.within, Part.second, LockTable.locking]
    rcases s.2.poll t with ⟨_ | _, after⟩ <;> exact ⟨rfl, rfl⟩
  cancel t s := rfl
  release l s := by
    simp only [locked, Locking.within, Part.step, Part.second, LockTable.locking]
    rcases s.2.release l with ⟨_ | _, after⟩ <;> exact ⟨rfl, rfl⟩
  discard l s := rfl
  answer r now s := rfl

/-- A view takes its locks in the storage. -/
theorem Storage.LocksFrom.view (h : S.LocksFrom table) (scope : Key) :
    (S.view scope).LocksFrom table where
  __ := h
  make keys s := h.make (keys.map scope.join) s
  answer r now s := h.answer (r.mapKeys scope.join) now s

/-- A logged storage has the locks of the storage. -/
theorem Storage.LocksFrom.logged (h : S.LocksFrom table) : S.logged.LocksFrom table where
  __ := h
  answer r now s := h.answer r now s

/-! ## A transaction and its lock -/

/-- Others, and the body of a transaction, do not touch its lock. -/
def Turn.Spares (table : σ → LockTable) (l : LockId) (t : TicketId) : Turn σ → Prop
  | .others change => ∀ s, ∃ actions : List LockAction, (∀ a ∈ actions, a.Spares l t) ∧
      table (change s) = (table s).run actions
  | .conclude body => ∀ tx s, ∃ actions : List LockAction, (∀ a ∈ actions, a.Spares l t) ∧
      table (body tx s).2 = (table s).run actions
  | .poll | .withdraw | .ask _ _ | .finish _ | .drop | .giveBack => True

/-- What a transaction relies on: while it waits its request is there, while it is open its lock is
held, and after its end its lock is gone. -/
structure Stage.Tied (pending : PendingTransaction) (stage : Stage) (table : LockTable) : Prop where
  reserved : table.Reserved pending.lock pending.ticket
  stage : match stage with
    | .waiting => (table.tickets.get? pending.ticket).isSome
    | .active tx | .leaving tx => tx.lock = pending.lock ∧ table.isHeld pending.lock
    | .withdrawn | .refused _ | .ended _ => table.locks.get? pending.lock = none

namespace Stage.Tied

variable {pending : PendingTransaction} {stage : Stage} {tx : Transaction} {now : LockTable}

/-- What others do does not concern a transaction. -/
theorem spares {a : LockAction} (h : stage.Tied pending now)
    (ha : a.Spares pending.lock pending.ticket) : stage.Tied pending (now.act a) where
  reserved := by
    refine h.reserved.act ?_
    rintro rfl
    exact ha rfl
  stage := by
    obtain ⟨l', hne, k⟩ := h.reserved.keeps ha
    have hheld : now.isHeld pending.lock → (now.act a).isHeld pending.lock := by
      unfold LockTable.isHeld
      rw [k.locks _ hne]
      exact id
    have hst := h.stage
    cases stage with
    | waiting =>
      obtain ⟨x, hx⟩ := Option.isSome_iff_exists.mp hst
      have hlock : x.lock = pending.lock := (h.reserved.tickets _ x hx).mpr rfl
      exact Option.isSome_iff_exists.mpr ⟨x, k.tickets _ x (hlock ▸ hne) hx⟩
    | active tx => exact ⟨hst.1, hheld hst.2⟩
    | leaving tx => exact ⟨hst.1, hheld hst.2⟩
    | withdrawn | refused cause | ended outcome => exact (k.locks _ hne).trans hst

theorem spares_run (h : stage.Tied pending now) {actions : List LockAction}
    (ha : ∀ a ∈ actions, a.Spares pending.lock pending.ticket) :
    stage.Tied pending (now.run actions) := by
  induction actions generalizing now with
  | nil => exact h
  | cons a rest ih =>
    exact ih (h.spares (ha a List.mem_cons_self)) fun b hb => ha b (List.mem_cons_of_mem a hb)

/-- A lock that is dropped is gone. -/
theorem discarded (h : now.Reserved pending.lock pending.ticket)
    (hover : stage.isOver = true) : stage.Tied pending (now.discard pending.lock) where
  reserved := h.act (a := .discard pending.lock) (by simp)
  stage := by
    have hgone : (now.discard pending.lock).locks.get? pending.lock = none := by
      rw [LockTable.get?_discard, if_pos rfl]
    cases stage with
    | withdrawn | refused cause | ended outcome => exact hgone
    | waiting | active tx | leaving tx => cases hover

theorem gone (h : stage.Tied pending now) (hover : stage.isOver = true) :
    now.locks.get? pending.lock = none := by
  have hst := h.stage
  cases stage with
  | withdrawn | refused cause | ended outcome => exact hst
  | waiting | active tx | leaving tx => cases hover

/-- An open transaction gives back a lock that is held. -/
theorem put_back (L : S.LocksFrom table) {s : σ} (h : (Stage.active tx).Tied pending (table s))
    (outcome : Except StorageError Unit) :
    (S.locking.release tx.lock s).1.result = .ok () ∧
      (Stage.ended outcome).Tied pending
        (table (S.locking.discard tx.lock (S.locking.release tx.lock s).2)) := by
  obtain ⟨hlock, hheld⟩ := h.stage
  obtain ⟨t, ht⟩ := LockTable.isHeld_iff_holder.mp hheld
  obtain ⟨j, g, hl, hg, -⟩ := LockTable.holder_eq_some_iff.mp ht
  have hok : ((table s).release pending.lock).1 = .ok () :=
    LockTable.release_result hl (by simp [KeysLock.isHeld, hg])
  obtain ⟨hresult, hafter⟩ := L.release pending.lock s
  rw [hlock, hresult, hok, L.discard, hafter]
  exact ⟨rfl, discarded (h.reserved.act (a := .release pending.lock) (by simp)) rfl⟩

/-- A poll grants the lock of a transaction that waits, or leaves it waiting. -/
theorem poll (L : S.LocksFrom table) {s : σ} (h : Stage.waiting.Tied pending (table s)) :
    (Stage.waiting.turn S pending .poll s).1.Tied pending
      (table (Stage.waiting.turn S pending .poll s).2) := by
  obtain ⟨x, hx⟩ := Option.isSome_iff_exists.mp h.stage
  have hlock : x.lock = pending.lock := (h.reserved.tickets _ x hx).mpr rfl
  have hreserved := h.reserved.act (a := .poll pending.ticket) (by simp)
  obtain ⟨hprogress, hafter⟩ := L.poll pending.ticket s
  obtain ⟨-, hcases⟩ := h.reserved.sound.poll_cases hx
  rw [turn_poll]
  rcases hpoll : S.locking.poll pending.ticket s with ⟨progress, events, after⟩
  rw [hpoll] at hprogress hafter
  simp only at hprogress hafter
  rw [hprogress]
  rcases hcases with ⟨j, hj, hgranted, hheld⟩ | ⟨hwaiting, -, y, hy, -⟩
  · rw [hgranted]
    refine ⟨hafter ▸ hreserved, rfl, ?_⟩
    rw [hlock] at hheld
    simp [hafter, LockTable.isHeld, hheld, KeysLock.isHeld]
  · rw [hwaiting]
    exact ⟨hafter ▸ hreserved, by simp [hafter, hy]⟩

/-- Every turn keeps the tie of a transaction to its lock, and no lock is given back that is not
held. -/
theorem turn (L : S.LocksFrom table) {s : σ} (h : stage.Tied pending (table s)) {turn : Turn σ}
    (ht : turn.Spares table pending.lock pending.ticket) :
    (stage.turn S pending turn s).1.Tied pending (table (stage.turn S pending turn s).2) ∧
      ∀ l result, .release l result ∈ stage.calls S pending turn s → result = .ok () := by
  have hback : ∀ {s : σ} {tx : Transaction}, (Stage.active tx).Tied pending (table s) →
      ∀ l result, .release l result ∈ tx.leave S s → result = .ok () := by
    intro s tx h l result hm
    obtain ⟨-, rfl⟩ : l = tx.lock ∧ result = (S.locking.release tx.lock s).1.result := by
      simpa [Transaction.leave] using hm
    exact (h.put_back L (.ok ())).1
  cases turn with
  | poll =>
    cases stage with
    | waiting =>
      refine ⟨h.poll L, fun l result hm => ?_⟩
      simp only [calls] at hm
      split at hm <;> simp at hm
    | _ => exact ⟨h, by simp [calls]⟩
  | withdraw =>
    cases stage with
    | waiting =>
      refine ⟨?_, by simp [calls]⟩
      simp only [Stage.turn, Storage.withdraw, L.discard, L.cancel]
      exact discarded (h.reserved.act (a := .cancel pending.ticket) (by simp)) rfl
    | _ => exact ⟨h, by simp [calls]⟩
  | ask r now =>
    cases stage with
    | active tx =>
      refine ⟨?_, by simp [calls]⟩
      simp only [Stage.turn, Transaction.answer]
      cases tx.outside? r with
      | some key => exact h
      | none => exact (L.answer r now s).symm ▸ h
    | _ => exact ⟨h, by simp [calls]⟩
  | finish ending =>
    cases stage with
    | active tx =>
      refine ⟨?_, hback h⟩
      simp only [Stage.turn, Transaction.finish_state]
      exact (h.put_back L _).2
    | _ => exact ⟨h, by simp [calls]⟩
  | conclude body =>
    cases stage with
    | active tx =>
      obtain ⟨actions, hspares, hbody⟩ := ht tx s
      have hafter : (Stage.active tx).Tied pending (table (body tx s).2) :=
        hbody ▸ h.spares_run hspares
      refine ⟨?_, hback hafter⟩
      simp only [Stage.turn, Transaction.conclude_state]
      exact (hafter.put_back L _).2
    | _ => exact ⟨h, by simp [calls]⟩
  | drop =>
    cases stage with
    | active tx => exact ⟨⟨h.reserved, h.stage⟩, by simp [calls]⟩
    | _ => exact ⟨h, by simp [calls]⟩
  | giveBack =>
    cases stage with
    | leaving tx =>
      have hopen : (Stage.active tx).Tied pending (table s) := ⟨h.reserved, h.stage⟩
      exact ⟨(hopen.put_back L _).2, hback hopen⟩
    | _ => exact ⟨h, by simp [calls]⟩
  | others change =>
    obtain ⟨actions, hspares, hchange⟩ := ht s
    have hafter : stage.Tied pending (table (change s)) := hchange ▸ h.spares_run hspares
    cases stage <;> exact ⟨hafter, by simp [calls]⟩

theorem live (L : S.LocksFrom table) (turns : List (Turn σ)) {s : σ}
    (h : stage.Tied pending (table s))
    (ht : ∀ turn ∈ turns, turn.Spares table pending.lock pending.ticket) :
    (Stage.live S pending (stage, s) turns).1.Tied pending
        (table (Stage.live S pending (stage, s) turns).2) ∧
      ∀ l result, .release l result ∈ Stage.record S pending (stage, s) turns →
        result = .ok () := by
  induction turns generalizing stage s with
  | nil => exact ⟨h, by simp [record]⟩
  | cons turn rest ih =>
    obtain ⟨hafter, hnow⟩ := h.turn L (ht turn List.mem_cons_self)
    obtain ⟨hend, hrest⟩ := ih hafter fun other hmem => ht other (List.mem_cons_of_mem turn hmem)
    refine ⟨hend, fun l result hmem => ?_⟩
    exact (List.mem_append.mp hmem).elim (hnow l result) (hrest l result)

/-- A transaction that was asked for has a lock of its own. -/
theorem begin (L : S.LocksFrom table) {s : σ} (hs : (table s).Sound) (keys : List Key) :
    Stage.waiting.Tied (S.begin keys s).1 (table (S.begin keys s).2) := by
  obtain ⟨keys', hlock, hmade⟩ := L.make (Key.ordered keys) s
  obtain ⟨hticket, hasked⟩ := L.request (S.locking.make (Key.ordered keys) s).1
    (S.locking.make (Key.ordered keys) s).2
  have hreserved := hs.reserved keys'
  have hget := LockTable.get?_request ((table s).make keys').2 ((table s).make keys').1
  simp only [hmade, hlock] at hticket hasked
  unfold Storage.begin
  refine ⟨?_, ?_⟩
  · simpa only [hasked, hticket, hlock] using hreserved
  · simp only [hasked, hticket, hlock]
    exact hget ▸ rfl

end Stage.Tied

/-- **A lock is given back once.** Whatever the storage, its locks and those who use them do, the
lock of a transaction is never given back before it is granted; it is given back once at the end of
the transaction, and then dropped. What is dropped by its owner is given back by the background. If
the locks come from a lock table, every lock that is given back is held, and afterwards nothing is
left of it: its request owns no key and waits for none. -/
theorem Storage.gives_back_once (S : Storage σ) (keys : List Key) (turns : List (Turn σ)) (s : σ) :
    (∃ pending stage after calls,
      S.life keys turns s = (pending, stage, after) ∧
      S.recorded.life keys (turns.map Turn.recorded) (s, []) = (pending, stage, after, calls) ∧
      stage.Recounts (Key.ordered keys) pending calls ∧
      (∀ tx, stage = .leaving tx →
        (S.life keys (turns ++ [.giveBack]) s).2.1 = .ended (.ok ())) ∧
      ∀ table : σ → LockTable, S.LocksFrom table → (∃ actions, table s = LockTable.run {} actions) →
        (∀ turn ∈ turns, turn.Spares table pending.lock pending.ticket) →
        (∀ lock result, .release lock result ∈ calls → result = .ok ()) ∧
        (stage.isOver → (table after).locks.get? pending.lock = none ∧
          ∀ k, ¬ (table after).Owns pending.ticket k ∧ pending.ticket ∉ (table after).line k)) ∧
    ∀ (α : Type) (body : TransactionBody σ α),
      (S.transactionally keys body s).2 =
        (S.life keys [.poll, .conclude body, .withdraw] s).2.2 := by
  refine ⟨⟨(S.life keys turns s).1, (S.life keys turns s).2.1, (S.life keys turns s).2.2, _, rfl,
      S.life_recorded keys turns s, ?recounts, ?background, ?table⟩,
    fun α body => S.transactionally_state keys body s⟩
  case recounts =>
    have hfirst : Stage.waiting.Recounts (Key.ordered keys) (S.begin keys s).1
        [.make (Key.ordered keys), .request (S.begin keys s).1.lock] := ⟨0, [], rfl, rfl⟩
    exact hfirst.live turns (S.begin keys s).2
  case background =>
    intro tx htx
    rw [life_eq] at htx ⊢
    rw [Stage.live_concat, htx]
    rfl
  case table =>
    intro table L hreachable hspares
    obtain ⟨actions, hrun⟩ := hreachable
    have hbegin := Stage.Tied.begin L (hrun ▸ LockTable.sound_run actions) keys
    obtain ⟨hend, hresults⟩ := hbegin.live L turns hspares
    refine ⟨?_, ?_⟩
    · intro lock result hmem
      rcases List.mem_append.mp hmem with hmem | hmem
      · simp at hmem
      · exact hresults lock result hmem
    · intro hover
      have hgone := hend.gone hover
      refine ⟨hgone, fun k => ?_⟩
      have hline := hend.reserved.not_mem_line hgone k
      exact ⟨fun ho => hline (hend.reserved.sound.mem_line_of_owns ho), hline⟩

end

section

open Memory (storage)

/-- The key that is wanted is in use: a lock over it is held. -/
def sampleState : Memory.State :=
  (.empty, LockTable.run {} [.make [⟨["a"]⟩], .request 0, .poll 1])

/-- A transaction waits until the lock before it is given back, asks a request, and is dropped;
somebody else makes another lock before the background gives back its own. -/
def sampleTurns : List (Turn Memory.State) :=
  [.poll, .others fun s => (s.1, s.2.act (.release 0)), .poll, .ask (.delete ⟨["a"]⟩) ⟨0⟩, .drop,
    .others fun s => (s.1, s.2.act (.make [⟨["a"]⟩])), .giveBack]

theorem gives_back_once_on_sampleTurns :
    ∃ pending after calls,
      storage.recorded.life [⟨["a"]⟩] (sampleTurns.map Turn.recorded) (sampleState, []) =
        (pending, .ended (.ok ()), after, calls) ∧
      (∀ lock result, .release lock result ∈ calls → result = .ok ()) ∧
      ∀ k, pending.ticket ∉ after.2.line k := by
  obtain ⟨⟨pending, stage, after, calls, hlife, hrecorded, -, -, htable⟩, -⟩ :=
    Storage.gives_back_once storage [⟨["a"]⟩] sampleTurns sampleState
  obtain ⟨rfl, hrest⟩ := Prod.mk.inj hlife
  obtain ⟨rfl, rfl⟩ := Prod.mk.inj hrest
  have hlock : (storage.life [⟨["a"]⟩] sampleTurns sampleState).1.lock = 2 := by decide +kernel
  have hticket : (storage.life [⟨["a"]⟩] sampleTurns sampleState).1.ticket = 3 := by
    decide +kernel
  have hspares : ∀ turn ∈ sampleTurns, turn.Spares Prod.snd
      (storage.life [⟨["a"]⟩] sampleTurns sampleState).1.lock
      (storage.life [⟨["a"]⟩] sampleTurns sampleState).1.ticket := by
    rw [hlock, hticket]
    simp only [sampleTurns, List.forall_mem_cons]
    exact ⟨trivial, fun s => ⟨[.release 0], by simp [LockAction.Spares], rfl⟩, trivial, trivial,
      trivial, fun s => ⟨[.make [⟨["a"]⟩]], by simp [LockAction.Spares], rfl⟩, trivial, by simp⟩
  obtain ⟨hresults, hover⟩ :=
    htable Prod.snd Memory.backend.locksFrom_locked ⟨_, rfl⟩ hspares
  have hended : (storage.life [⟨["a"]⟩] sampleTurns sampleState).2.1 = .ended (.ok ()) := rfl
  refine ⟨_, _, _, hended ▸ hrecorded, hresults, fun k => ((hover (hended ▸ rfl)).2 k).2⟩

end

end BlobStore
