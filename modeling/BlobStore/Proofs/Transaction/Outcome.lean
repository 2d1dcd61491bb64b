import BlobStore.Proofs.Lock.Handle
import BlobStore.Proofs.Lock.Pruning
import BlobStore.Proofs.Transaction.Towers

/-!
# What comes of a body run in a transaction

A body is run in a transaction over keys as soon as the lock over them is granted. Three things can
fail on the way, in this order: the acquire, the body, and the release at the end. An acquire that
fails is all that happens. Otherwise the body runs, the lock is given back whatever came of it, and
an error of the body wins over one of the release. Nothing else is done: what the body did stays
done.

While the acquire waits others do as they please. So the lock is polled here after one change of
the state after the other; a body that need not wait is run after the first poll.

## Main definitions

* `Locking.acquire`, `Storage.await`: a lock, and a transaction, polled until it waits no longer
* `Storage.transactionallyAmid`: a body run in a transaction while others use the storage, too
* `LockTable.Private`: a lock that only its own request can hold
* `LockTable.HandsOn`: what becomes of the keys of a lock that is given back
* `Storage.BodyOutcome`: what comes of a body that is run in a transaction

## Main results

* `Transaction.conclude_result`: which of two errors wins
* `LockTable.Private.handsOn`: each key of a lock that is given back goes to the next who waits
* `Storage.body_outcome`: what comes of a body, whatever the storage, its locks and the body do
-/

namespace BlobStore

/-! ## Locks given back -/

theorem Mutex.Serves.eq_of_line {owns awaits : TicketId → Prop} {m : Mutex}
    (h : Serves owns awaits m) : m = ⟨m.line.head?, m.line.tail⟩ := by
  obtain ⟨owner, queue⟩ := m
  cases owner with
  | none =>
    obtain rfl : queue = [] := h.free rfl
    rfl
  | some u => rfl

namespace LockTable

variable {table before after : LockTable} {l : LockId} {t : TicketId} {keys : List Key}

theorem filter_ne_of_not_mem {line : List TicketId} (h : t ∉ line) : line.filter (· ≠ t) = line :=
  List.filter_eq_self.mpr fun _ hu => decide_eq_true (ne_of_mem_of_not_mem hu h)

/-- A reserved lock over some keys, which its own request holds if anybody does. -/
structure Private (l : LockId) (t : TicketId) (keys : List Key) (table : LockTable) : Prop extends
    Reserved l t table where
  keys_eq : ∀ h, table.locks.get? l = some h → h.keys = keys
  own : ∀ u, table.holder l = some u → u = t

/-- A new lock is private to the first request for it. -/
theorem Sound.private (s : table.Sound) (keys : List Key) :
    Private table.fresh (table.fresh + 1) (Key.ordered keys)
      ((table.make keys).2.request table.fresh).2 where
  toReserved := s.reserved keys
  keys_eq h hl := by
    have hget : ((table.make keys).2.request table.fresh).2.locks.get? table.fresh =
        some ⟨Key.ordered keys, none⟩ := get?_make table keys
    rw [hget] at hl
    cases hl
    rfl
  own u hu := by
    have hget : ((table.make keys).2.request table.fresh).2.locks.get? table.fresh =
        some ⟨Key.ordered keys, none⟩ := get?_make table keys
    simp [LockTable.holder, hget] at hu

namespace Private

/-- A private lock stays so, unless there is another request for it. -/
theorem act (p : Private l t keys table) {a : LockAction} (ha : a ≠ .request l) :
    Private l t keys (table.act a) where
  toReserved := p.toReserved.act ha
  keys_eq h hl := by
    rcases p.sound.locks_act hl with ⟨old, hold, hkeys⟩ | ⟨_, -, hfresh, -⟩
    · rw [hkeys]
      exact p.keys_eq old hold
    · exact absurd hfresh (Nat.ne_of_lt p.lock_lt)
  own u hu := by
    rcases p.sound.holder_act hu with hu | ⟨-, -, x, hx, hlock⟩
    · exact p.own u hu
    · exact (p.tickets u x hx).mp hlock

theorem run (p : Private l t keys table) {actions : List LockAction}
    (ha : ∀ a ∈ actions, a.Spares l t) : Private l t keys (table.run actions) := by
  induction actions generalizing table with
  | nil => exact p
  | cons a rest ih =>
    have hne : a ≠ .request l := by
      rintro rfl
      exact ha _ List.mem_cons_self rfl
    exact ih (p.act hne) fun b hb => ha b (List.mem_cons_of_mem a hb)

end Private

/-- The keys of `t` are handed on, each to the next who waits for it; a key that nobody waits for is
free and forgotten. Other keys are as before. -/
structure HandsOn (t : TicketId) (keys : List Key) (before after : LockTable) : Prop where
  owned : ∀ k ∈ keys, (before.mutex k).owner = some t
  handed : ∀ k ∈ keys,
    after.mutex k = ⟨(before.mutex k).queue.head?, (before.mutex k).queue.tail⟩
  free : ∀ k ∈ keys, (before.mutex k).queue = [] → k ∉ after.mutexes.keys
  kept : ∀ k, k ∉ keys → after.mutex k = before.mutex k

namespace Private

variable (p : Private l t keys table) (hheld : table.isHeld l)

include p hheld

/-- Whoever holds a private lock owns the keys of the lock, and stands at no others. -/
theorem owns_iff (k : Key) : (table.Owns t k ↔ k ∈ keys) ∧ ¬ table.Awaits t k := by
  obtain ⟨u, hu⟩ := isHeld_iff_holder.mp hheld
  obtain rfl := p.own u hu
  obtain ⟨h, g, hl, hg, rfl⟩ := holder_eq_some_iff.mp hu
  have hkeys : g.keys = keys := (p.sound.grant_keys l h g hl hg).trans (p.keys_eq h hl)
  have hdone := p.sound.grant_done l h g hl hg
  refine ⟨⟨?_, fun hk => Or.inr ⟨l, h, g, hl, hg, rfl, hkeys ▸ hk⟩⟩, ?_⟩
  · rintro (⟨x, hx, -⟩ | ⟨l', h', g', hl', hg', he, hk⟩)
    · rw [hdone] at hx
      cases hx
    · obtain rfl : l' = l := p.holder l' (holder_eq_some_iff.mpr ⟨h', g', hl', hg', he⟩)
      obtain rfl : h = h' := Option.some.inj (hl.symm.trans hl')
      obtain rfl : g = g' := Option.some.inj (hg.symm.trans hg')
      exact hkeys ▸ hk
  · rintro ⟨x, hx, -⟩
    rw [hdone] at hx
    cases hx

/-- Nobody is left to depart when a private lock is dropped after it was given back. -/
theorem line_discard_release (k : Key) :
    ((table.release l).2.discard l).line k = (table.line k).filter (· ≠ t) := by
  obtain ⟨u, hu⟩ := isHeld_iff_holder.mp hheld
  obtain rfl := p.own u hu
  have hafter := p.act (a := .release l) (by simp)
  have hreleased : (table.act (.release l)).tickets.get? u = none := by
    obtain ⟨h, g, hl, hg, rfl⟩ := holder_eq_some_iff.mp hu
    exact p.sound.get?_act_eq_none (.release l) p.ticket_lt (p.sound.grant_done l h g hl hg)
  have hrequests : (table.release l).2.ticketsOf l = [] := by
    refine List.eq_nil_iff_forall_not_mem.mpr fun v hv => ?_
    obtain ⟨x, hx, hlock⟩ := hafter.sound.mem_ticketsOf.mp hv
    obtain rfl := (hafter.tickets v x hx).mp hlock
    rw [hreleased] at hx
    cases hx
  have hdiscard := (hafter.sound.departs_discard l).line k
  have hrelease := (p.sound.departs_release l).line k
  rw [hu] at hrelease
  simp only [LockTable.act, hrequests, holder_release, Option.toList_none, List.append_nil,
    List.not_mem_nil, not_false_iff, decide_true, List.filter_true] at hdiscard
  rw [hdiscard, hrelease]
  simp

/-- A private lock that is given back and dropped hands its keys on. -/
theorem handsOn : HandsOn t keys table ((table.release l).2.discard l) := by
  have hsound : ((table.release l).2.discard l).Sound := (p.sound.release l).discard l
  have hqueue : ∀ k ∈ keys, ((table.release l).2.discard l).line k = (table.mutex k).queue := by
    intro k hk
    have hline := p.sound.line_of_owns ((p.owns_iff hheld k).1.mpr hk)
    have hnodup := p.sound.line_nodup k
    rw [hline] at hnodup
    obtain ⟨hnot, -⟩ := List.nodup_cons.mp hnodup
    rw [p.line_discard_release hheld, hline, List.filter_cons_of_neg (by simp)]
    exact filter_ne_of_not_mem hnot
  refine ⟨?owned, ?handed, ?free, ?kept⟩
  case owned =>
    intro k hk
    exact (p.sound.serves k).owned t ((p.owns_iff hheld k).1.mpr hk)
  case handed =>
    intro k hk
    rw [(hsound.serves k).eq_of_line]
    show Mutex.mk (LockTable.line _ k).head? (LockTable.line _ k).tail = _
    rw [hqueue k hk]
  case free =>
    intro k hk hnone hmem
    obtain ⟨u, hu⟩ := isHeld_iff_holder.mp hheld
    obtain ⟨h, g, hl, hg, -⟩ := holder_eq_some_iff.mp hu
    have hreleased : ∃ h', (table.release l).2.locks.get? l = some h' ∧ h'.keys = keys := by
      refine ⟨{ h with held := none }, ?_, p.keys_eq h hl⟩
      simp [LockTable.release, hl, hg]
    obtain ⟨h', hl', hkeys⟩ := hreleased
    obtain ⟨v, hv⟩ := (((p.sound.release l).mem_keys_discard hl').mp hmem).2 (hkeys ▸ hk)
    rw [hqueue k hk, hnone] at hv
    cases hv
  case kept =>
    intro k hk
    have hline : ((table.release l).2.discard l).line k = table.line k := by
      rw [p.line_discard_release hheld]
      apply filter_ne_of_not_mem
      intro ht
      rcases p.sound.mem_line ht with ho | ha
      · exact hk ((p.owns_iff hheld k).1.mp ho)
      · exact (p.owns_iff hheld k).2 ha
    rw [(hsound.serves k).eq_of_line, (p.sound.serves k).eq_of_line]
    show Mutex.mk (LockTable.line _ k).head? (LockTable.line _ k).tail = _
    rw [hline]
    rfl

end Private

end LockTable

/-! ## Waiting -/

section

variable {σ α : Type}

/-- A lock that was asked for is polled until it waits no longer. Before every poll others do
something to the state. -/
def Locking.acquire (L : Locking σ) (ticket : TicketId) :
    List (σ → σ) → σ → Progress × List Event × σ
  | [], s => (.waiting, [], s)
  | change :: rest, s =>
    match L.poll ticket (change s) with
    | (.waiting, events, s) =>
      let (progress, more, s) := L.acquire ticket rest s
      (progress, events ++ more, s)
    | (progress, events, s) => (progress, events, s)

/-- A transaction that was asked for is polled until it waits no longer. -/
def Storage.await (S : Storage σ) (pending : PendingTransaction) :
    List (σ → σ) → σ → Option (Except StorageError Transaction) × List Event × σ
  | [], s => (none, [], s)
  | change :: rest, s =>
    match S.poll pending (change s) with
    | (none, events, s) =>
      let (outcome, more, s) := S.await pending rest s
      (outcome, events ++ more, s)
    | (some outcome, events, s) => (some outcome, events, s)

/-- A body run in a transaction over keys, while others use the storage, too; nothing, if its lock
still waits after the last of their changes. -/
def Storage.transactionallyAmid (S : Storage σ) (keys : List Key) (changes : List (σ → σ))
    (body : TransactionBody σ α) (s : σ) : Option (Reply α) × σ :=
  let (pending, s) := S.begin keys s
  match S.await pending changes s with
  | (none, _, s) => (none, S.withdraw pending s)
  | (some (.error e), events, s) => (some ⟨.error e, events⟩, s)
  | (some (.ok tx), events, s) =>
    let (reply, s) := tx.conclude S body s
    (some ⟨reply.result, events ++ reply.events⟩, s)

/-- How the acquire of the lock of a transaction over keys comes out, with the state then. -/
def Storage.acquired (S : Storage σ) (keys : List Key) (changes : List (σ → σ)) (s : σ) :
    Progress × List Event × σ :=
  S.locking.acquire (S.begin keys s).1.ticket changes (S.begin keys s).2

variable (S : Storage σ)

/-- A transaction is there when its lock is, and fails if its lock does. -/
theorem Storage.await_eq (pending : PendingTransaction) (changes : List (σ → σ)) (s : σ) :
    S.await pending changes s =
      match S.locking.acquire pending.ticket changes s with
      | (.waiting, events, s) => (none, events, s)
      | (.refused e, events, s) => (some (.error e), events, S.locking.discard pending.lock s)
      | (.granted, events, s) =>
        let message := s!"transaction started on {S.identifier}: [{Key.describe pending.keys}]"
        (some (.ok ⟨pending.keys, pending.lock⟩),
          events ++ [Transaction.report .debug message], s) := by
  induction changes generalizing s with
  | nil => rfl
  | cons change rest ih =>
    simp only [await, Locking.acquire, poll]
    rcases S.locking.poll pending.ticket (change s) with ⟨_ | _ | _, events, s'⟩
    · simp only [ih]
      rcases S.locking.acquire pending.ticket rest s' with ⟨_ | _ | _, more, after⟩
      · rfl
      · simp only [List.append_assoc]
      · rfl
    · rfl
    · rfl

/-- Without others there is one poll. -/
theorem Storage.transactionallyAmid_alone (keys : List Key) (body : TransactionBody σ α) (s : σ) :
    S.transactionallyAmid keys [id] body s = S.transactionally keys body s := by
  unfold transactionallyAmid transactionally
  simp only [await, id]
  rcases S.poll (S.begin keys s).1 (S.begin keys s).2 with ⟨_ | _ | _, events, after⟩ <;> rfl

/-! ## Results -/

theorem Transaction.finish_result (tx : Transaction) (ending : Ending) (s : σ) :
    (tx.finish S ending s).1.result = (S.locking.release tx.lock s).1.result := by
  unfold finish
  dsimp only
  cases (S.locking.release tx.lock s).1.result <;> rfl

/-- The error of a body wins over that of the release. -/
theorem Transaction.conclude_result (tx : Transaction) (body : TransactionBody σ α) (s : σ) :
    (tx.conclude S body s).1.result =
      match (body tx s).1.result with
      | .ok value => (S.locking.release tx.lock (body tx s).2).1.result.map fun _ => value
      | .error e => .error e := by
  unfold conclude
  dsimp only
  cases (body tx s).1.result with
  | ok value => simp only [finish_result]
  | error e => rfl

/-! ## What comes of a body -/

/-- The transaction over keys in which a body is run, if its lock is granted. -/
def Storage.opened (S : Storage σ) (keys : List Key) (s : σ) : Transaction :=
  ⟨Key.ordered keys, (S.begin keys s).1.lock⟩

/-- What comes of a body that is run in an open transaction from a state on: the reply, and the
state afterwards. -/
structure Transaction.Concludes (tx : Transaction) (S : Storage σ) (body : TransactionBody σ α)
    (s : σ) (outcome : Option (Reply α) × σ) : Prop where
  /-- Whether the lock can be given back or not. -/
  failed : ∀ e, (body tx s).1.result = .error e → ∃ events, outcome.1 = some ⟨.error e, events⟩
  done : ∀ value, (body tx s).1.result = .ok value →
    (S.locking.release tx.lock (body tx s).2).1.result = .ok () →
    ∃ events, outcome.1 = some ⟨.ok value, events⟩
  stuck : ∀ value e, (body tx s).1.result = .ok value →
    (S.locking.release tx.lock (body tx s).2).1.result = .error e →
    ∃ events, outcome.1 = some ⟨.error e, events⟩
  state : outcome.2 = S.locking.discard tx.lock (S.locking.release tx.lock (body tx s).2).2

/-- Locks whose use leaves some data of the state alone. -/
structure Locking.Leaves {δ : Type} (L : Locking σ) (data : σ → δ) : Prop where
  make : ∀ keys s, data (L.make keys s).2 = data s
  request : ∀ lock s, data (L.request lock s).2 = data s
  poll : ∀ t s, data (L.poll t s).2.2 = data s
  release : ∀ lock s, data (L.release lock s).2 = data s
  discard : ∀ lock s, data (L.discard lock s) = data s

/-- A lock table beside the state of a backend leaves that state alone. -/
theorem Backend.leaves_locked (b : Backend σ) : b.locked.locking.Leaves Prod.fst where
  make _ _ := rfl
  request _ _ := rfl
  poll _ _ := rfl
  release _ _ := rfl
  discard _ _ := rfl

/-- What comes of a body that is run in a transaction over keys, while others make some changes
until its lock is granted. -/
structure Storage.BodyOutcome (S : Storage σ) (keys : List Key) (changes : List (σ → σ))
    (body : TransactionBody σ α) (s : σ) : Prop where
  alone : S.transactionallyAmid keys [id] body s = S.transactionally keys body s
  /-- The error of the acquire is what comes of it, whatever the body would have done. -/
  refused : ∀ e events after, S.acquired keys changes s = (.refused e, events, after) →
    S.transactionallyAmid keys changes body s =
      (some ⟨.error e, events⟩, S.locking.discard (S.begin keys s).1.lock after)
  granted : ∀ events after, S.acquired keys changes s = (.granted, events, after) →
    (S.opened keys s).Concludes S body after (S.transactionallyAmid keys changes body s)
  /-- The storage is asked what the body asks, and nothing else: any other could stand in its
  place. -/
  asks : ∀ b : Backend σ, b.identifier = S.identifier →
    Storage.transactionallyAmid ⟨b, S.locking⟩ keys changes body s =
      S.transactionallyAmid keys changes body s
  /-- Data that locks do not touch is changed by the others and by the body only. -/
  effects : ∀ {δ : Type} (data : σ → δ), S.locking.Leaves data →
    (∀ holds : δ → Prop, holds (data s) →
      (∀ change ∈ changes, ∀ s, holds (data s) → holds (data (change s))) →
      holds (data (S.acquired keys changes s).2.2)) ∧
    (∀ e events after, S.acquired keys changes s = (.refused e, events, after) →
      data (S.transactionallyAmid keys changes body s).2 = data after) ∧
    ∀ events after, S.acquired keys changes s = (.granted, events, after) →
      data (S.transactionallyAmid keys changes body s).2 =
        data (body (S.opened keys s) after).2
  /-- Locks of a lock table are granted sooner or later, can be given back, and hand on the keys. -/
  handed : ∀ (table : σ → LockTable) (scope : Key), S.LocksUnder table scope →
    (∃ actions, table s = LockTable.run {} actions) →
    (∀ change ∈ changes, (Turn.others change).Spares table (S.begin keys s).1.lock
      (S.begin keys s).1.ticket) →
    (Turn.conclude body).Spares table (S.begin keys s).1.lock (S.begin keys s).1.ticket →
    (∀ e, (S.acquired keys changes s).1 ≠ .refused e) ∧
    ∀ events after, S.acquired keys changes s = (.granted, events, after) →
      (S.locking.release (S.opened keys s).lock (body (S.opened keys s) after).2).1.result =
          .ok () ∧
        LockTable.HandsOn (S.begin keys s).1.ticket (keys.map scope.join)
          (table (body (S.opened keys s) after).2)
          (table (S.transactionallyAmid keys changes body s).2)

variable {S} {keys : List Key} {changes : List (σ → σ)} {s after : σ} {events : List Event}
  {table : σ → LockTable} {pending : PendingTransaction}

theorem Storage.transactionallyAmid_refused {e : StorageError} (body : TransactionBody σ α)
    (h : S.acquired keys changes s = (.refused e, events, after)) :
    S.transactionallyAmid keys changes body s =
      (some ⟨.error e, events⟩, S.locking.discard (S.begin keys s).1.lock after) := by
  unfold acquired at h
  simp only [transactionallyAmid, await_eq, h]

theorem Storage.concludes (body : TransactionBody σ α)
    (h : S.acquired keys changes s = (.granted, events, after)) :
    (S.opened keys s).Concludes S body after (S.transactionallyAmid keys changes body s) := by
  have hresult := (S.opened keys s).conclude_result S body after
  have hstate := (S.opened keys s).conclude_state S after body
  have hamid : ∃ started, S.transactionallyAmid keys changes body s =
      (some ⟨((S.opened keys s).conclude S body after).1.result,
        started ++ ((S.opened keys s).conclude S body after).1.events⟩,
        ((S.opened keys s).conclude S body after).2) := by
    unfold acquired at h
    simp only [transactionallyAmid, await_eq, h]
    exact ⟨_, rfl⟩
  obtain ⟨started, hamid⟩ := hamid
  rw [hamid]
  refine ⟨?failed, ?done, ?stuck, hstate⟩
  case failed =>
    intro e he
    rw [he] at hresult
    exact ⟨_, by rw [hresult]⟩
  case done =>
    intro value hvalue hrelease
    rw [hvalue, hrelease] at hresult
    exact ⟨_, by rw [hresult]; rfl⟩
  case stuck =>
    intro value e hvalue hrelease
    rw [hvalue, hrelease] at hresult
    exact ⟨_, by rw [hresult]; rfl⟩

/-- While a lock is waited for, the data that locks leave alone is changed by others only. -/
theorem Locking.Leaves.acquire {δ : Type} {L : Locking σ} {data : σ → δ} (h : L.Leaves data)
    {holds : δ → Prop} (ticket : TicketId) (hs : holds (data s))
    (hchanges : ∀ change ∈ changes, ∀ s, holds (data s) → holds (data (change s))) :
    holds (data (L.acquire ticket changes s).2.2) := by
  induction changes generalizing s with
  | nil => exact hs
  | cons change rest ih =>
    have hchanged := hchanges change List.mem_cons_self s hs
    have hpolled := h.poll ticket (change s)
    unfold Locking.acquire
    rcases hpoll : L.poll ticket (change s) with ⟨_ | _ | e, events, s'⟩ <;>
      rw [hpoll] at hpolled <;> rw [← hpolled] at hchanged
    · exact ih hchanged fun c hc => hchanges c (List.mem_cons_of_mem change hc)
    · exact hchanged
    · exact hchanged

/-! ## With a lock table -/

/-- A transaction that waits for a private lock of a lock table is not refused, and when it is
granted the lock is private still. -/
theorem Stage.Tied.acquire {pending : PendingTransaction} {covered : List Key}
    (L : S.LocksFrom table) (h : Stage.waiting.Tied pending (table s))
    (hprivate : LockTable.Private pending.lock pending.ticket covered (table s))
    (hchanges : ∀ change ∈ changes,
      (Turn.others change).Spares table pending.lock pending.ticket) :
    (∀ e, (S.locking.acquire pending.ticket changes s).1 ≠ .refused e) ∧
      ∀ events after, S.locking.acquire pending.ticket changes s = (.granted, events, after) →
        (Stage.active ⟨pending.keys, pending.lock⟩).Tied pending (table after) ∧
          LockTable.Private pending.lock pending.ticket covered (table after) := by
  induction changes generalizing s with
  | nil => exact ⟨nofun, nofun⟩
  | cons change rest ih =>
    obtain ⟨actions, hspares, hchange⟩ := hchanges change List.mem_cons_self s
    have hwaits : Stage.waiting.Tied pending (table (change s)) :=
      hchange ▸ h.spares_run hspares
    have hbefore : LockTable.Private pending.lock pending.ticket covered (table (change s)) :=
      hchange ▸ hprivate.run hspares
    have hpolled := hwaits.poll L
    obtain ⟨hprogress, hafter⟩ := L.poll pending.ticket (change s)
    have hkept : LockTable.Private pending.lock pending.ticket covered
        (table (S.locking.poll pending.ticket (change s)).2.2) :=
      hafter ▸ hbefore.act (a := .poll pending.ticket) (by simp)
    rw [Stage.turn_poll] at hpolled
    unfold Locking.acquire
    rcases hpoll : S.locking.poll pending.ticket (change s) with ⟨_ | _ | e, events, s'⟩ <;>
      rw [hpoll] at hpolled hkept hprogress
    · obtain ⟨hnever, hgranted⟩ := ih hpolled hkept fun c hc =>
        hchanges c (List.mem_cons_of_mem change hc)
      refine ⟨hnever, fun _ after he => ?_⟩
      rcases hacquire : S.locking.acquire pending.ticket rest s' with ⟨progress, more, final⟩
      rw [hacquire] at hgranted
      simp only [hacquire] at he
      cases he
      exact hgranted more after rfl
    · refine ⟨nofun, fun _ after he => ?_⟩
      cases he
      exact ⟨hpolled, hkept⟩
    · split at hprogress <;> cases hprogress

/-- The keys are the same, whatever list they are given by. -/
theorem LockTable.HandsOn.congr {t : TicketId} {keys others : List Key} {before after : LockTable}
    (h : HandsOn t keys before after) (hk : ∀ k, k ∈ others ↔ k ∈ keys) :
    HandsOn t others before after where
  owned k hmem := h.owned k ((hk k).mp hmem)
  handed k hmem := h.handed k ((hk k).mp hmem)
  free k hmem := h.free k ((hk k).mp hmem)
  kept k hmem := h.kept k fun hin => hmem ((hk k).mpr hin)

theorem LockTable.mem_ordered_join (keys : List Key) (scope k : Key) :
    k ∈ keys.map scope.join ↔ k ∈ Key.ordered ((Key.ordered keys).map scope.join) := by
  simp only [Key.mem_ordered, List.mem_map]

/-- A body that spares the lock of its transaction finds that lock private at its end, and all of
its keys are handed on. -/
theorem Storage.handsOn {scope : Key} (L : S.LocksUnder table scope)
    (hreachable : ∃ actions, table s = LockTable.run {} actions)
    (hchanges : ∀ change ∈ changes, (Turn.others change).Spares table (S.begin keys s).1.lock
      (S.begin keys s).1.ticket)
    {body : TransactionBody σ α}
    (hbody : (Turn.conclude body).Spares table (S.begin keys s).1.lock (S.begin keys s).1.ticket) :
    (∀ e, (S.acquired keys changes s).1 ≠ .refused e) ∧
      ∀ events after, S.acquired keys changes s = (.granted, events, after) →
        (S.locking.release (S.opened keys s).lock (body (S.opened keys s) after).2).1.result =
            .ok () ∧
          LockTable.HandsOn (S.begin keys s).1.ticket (keys.map scope.join)
            (table (body (S.opened keys s) after).2)
            (table (S.transactionallyAmid keys changes body s).2) := by
  obtain ⟨actions, hrun⟩ := hreachable
  have hsound : (table s).Sound := hrun ▸ LockTable.sound_run actions
  have hwaits := Stage.Tied.begin L.toLocksFrom hsound keys
  have hprivate : LockTable.Private (S.begin keys s).1.lock (S.begin keys s).1.ticket
      (Key.ordered ((Key.ordered keys).map scope.join)) (table (S.begin keys s).2) := by
    obtain ⟨hpending, hafter⟩ := L.begin keys s
    rw [hpending, hafter]
    exact hsound.private ((Key.ordered keys).map scope.join)
  obtain ⟨hnever, hgranted⟩ := hwaits.acquire L.toLocksFrom hprivate hchanges
  refine ⟨hnever, fun events after h => ?_⟩
  obtain ⟨hactive, hprivate⟩ := hgranted events after h
  obtain ⟨done, hspares, hdone⟩ := hbody (S.opened keys s) after
  have hended : (Stage.active (S.opened keys s)).Tied (S.begin keys s).1
      (table (body (S.opened keys s) after).2) := hdone ▸ hactive.spares_run hspares
  have hstill := hdone ▸ hprivate.run hspares
  obtain ⟨hlock, hheld⟩ := hended.stage
  refine ⟨(hended.put_back L.toLocksFrom (.ok ())).1, ?_⟩
  rw [(concludes body h).state, L.discard, (L.release _ _).2]
  exact (hstill.handsOn hheld).congr (LockTable.mem_ordered_join keys scope)

/-- **A body run in a transaction.** Whatever the storage, its locks and the body do: an error of
the acquire is returned, and the body is not run; an error of the body is returned, whether the lock
can be given back or not; a value of the body is returned if it can, and the error of giving it back
otherwise. What the body did is all that was done, besides what others did while it waited, and the
lock is always given back and dropped. If it comes from a lock table, giving it back succeeds, and
each of its keys goes to the next who waits for it, or is free. -/
theorem Storage.body_outcome (S : Storage σ) (keys : List Key) (changes : List (σ → σ))
    (body : TransactionBody σ α) (s : σ) : S.BodyOutcome keys changes body s where
  alone := S.transactionallyAmid_alone keys body s
  refused _ _ _ h := transactionallyAmid_refused body h
  granted _ _ h := concludes body h
  asks b hb := by
    obtain ⟨identifier, answer, intake⟩ := b
    obtain rfl : identifier = S.identifier := hb
    simp only [transactionallyAmid, await_eq]
    rfl
  effects data h := by
    refine ⟨?waited, ?refused, ?granted⟩
    case waited =>
      intro holds hs hchanges
      have hbegun : data (S.begin keys s).2 = data s := (h.request _ _).trans (h.make _ _)
      exact h.acquire _ (hbegun ▸ hs) hchanges
    case refused =>
      intro e events after hrefused
      rw [transactionallyAmid_refused body hrefused]
      exact h.discard _ _
    case granted =>
      intro events after hgranted
      rw [(concludes body hgranted).state, h.discard, h.release]
  handed _ _ L hreachable hchanges hbody := handsOn L hreachable hchanges hbody

end

section

open Memory (storage)

/-- The key that a transaction waits for is given back. -/
def sampleChanges : List (Memory.State → Memory.State) :=
  [id, fun s => (s.1, s.2.act (.release 0))]

/-- A body saves under its key and fails, and somebody else asks for the key meanwhile. -/
def sampleBody : TransactionBody Memory.State Unit := fun tx s =>
  let saved := (tx.answer storage (.save ⟨["a"]⟩ (Content.ofBytes [7])) ⟨0⟩ s).2
  (.error (.notFound ⟨["b"]⟩), (saved.1, saved.2.run [.request 0, .poll 4]))

/-- Somebody else has the key after the transaction, and the value is saved all the same. -/
theorem body_outcome_on_sampleBody :
    ∃ events after,
      storage.transactionallyAmid [⟨["a"]⟩] sampleChanges sampleBody sampleState =
        (some ⟨.error (.notFound ⟨["b"]⟩), events⟩, after) ∧
      after.1.values.contains ⟨["a"]⟩ = true ∧
      after.2.mutex ⟨["a"]⟩ = ⟨some 4, []⟩ := by
  obtain ⟨-, -, hgranted, -, heffects, hhanded⟩ :=
    Storage.body_outcome storage [⟨["a"]⟩] sampleChanges sampleBody sampleState
  obtain ⟨started, begun, hacquired, hbegun⟩ : ∃ started begun,
      storage.acquired [⟨["a"]⟩] sampleChanges sampleState = (.granted, started, begun) ∧
      begun = (storage.acquired [⟨["a"]⟩] sampleChanges sampleState).2.2 := ⟨_, _, rfl, rfl⟩
  have hlock : (storage.begin [⟨["a"]⟩] sampleState).1.lock = 2 := by decide +kernel
  have hticket : (storage.begin [⟨["a"]⟩] sampleState).1.ticket = 3 := by decide +kernel
  have hchanges : ∀ change ∈ sampleChanges, (Turn.others change).Spares Prod.snd
      (storage.begin [⟨["a"]⟩] sampleState).1.lock
      (storage.begin [⟨["a"]⟩] sampleState).1.ticket := by
    rw [hlock, hticket]
    simp only [sampleChanges, List.forall_mem_cons]
    exact ⟨fun s => ⟨[], by simp, rfl⟩, fun s => ⟨[.release 0], by simp [LockAction.Spares], rfl⟩,
      by simp⟩
  have hbody : (Turn.conclude sampleBody).Spares Prod.snd
      (storage.begin [⟨["a"]⟩] sampleState).1.lock
      (storage.begin [⟨["a"]⟩] sampleState).1.ticket := by
    rw [hlock, hticket]
    intro tx s
    refine ⟨[.request 0, .poll 4], by simp [LockAction.Spares], ?_⟩
    simp only [sampleBody, Transaction.answer]
    split <;> rfl
  obtain ⟨events, hreply⟩ := (hgranted started begun hacquired).failed _ rfl
  obtain ⟨-, hhanded⟩ := hhanded Prod.snd Key.root Memory.backend.locksUnder_locked ⟨_, rfl⟩
    hchanges hbody
  obtain ⟨-, hhandsOn⟩ := hhanded started begun hacquired
  obtain ⟨-, -, hdone⟩ := heffects Prod.fst Memory.backend.leaves_locked
  refine ⟨events, _, Prod.ext hreply rfl, ?_, ?_⟩
  · rw [hdone started begun hacquired, hbegun]
    decide +kernel
  · rw [hhandsOn.handed ⟨["a"]⟩ (List.mem_singleton.mpr rfl), hbegun]
    decide +kernel

end

end BlobStore
