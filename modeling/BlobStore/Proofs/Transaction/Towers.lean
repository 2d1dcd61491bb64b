import BlobStore.Proofs.Transaction.Seats
import BlobStore.Proofs.Usage

/-!
# Locks through towers of storages

A storage is wrapped in views, in logged storages, and in handles that several share. Whatever the
wrapping, a lock over keys is a lock of the one table below over the keys of the storage that they
stand for. So transactions that are begun through different wrappings exclude each other as if they
had been begun on the storage itself, and transactions that do not concern each other do not wait.

## Main definitions

* `Layer`, `Tower.storage`, `Tower.scope`: wrappings, and the start that they put before all keys
* `Storage.LocksUnder`: a storage whose locks are over the keys of a table that start with a key
* `Party`, `Parties.run`: transactions through towers over one storage, and their runs
* `Parties.Tied`: the invariant that ties them to the locks

## Main results

* `Storage.LocksUnder.tower`: the locks of a tower
* `Stage.Tied.transact`: a deed of a transaction concerns its own lock only
* `Parties.tied_run`: the invariant holds after every run
* `Parties.exclusive`: who excludes whom, and who need not wait
-/

namespace BlobStore

/-! ## Towers -/

/-- One wrapping of a storage. -/
inductive Layer
  | view (scope : Key)
  | logged
  /-- A handle that several share; it passes everything on. -/
  | shared
deriving DecidableEq, Repr

/-- The storage in a wrapping. -/
def Layer.over {σ : Type} (S : Storage σ) : Layer → Storage σ
  | .view scope => S.view scope
  | .logged => S.logged
  | .shared => S

/-- What all keys start with in a wrapping, if they start with `start` without it. -/
def Layer.within (start : Key) : Layer → Key
  | .view scope => start.join scope
  | .logged | .shared => start

/-- The storage in many wrappings, from the innermost to the outermost. -/
def Tower.storage {σ : Type} (tower : List Layer) (S : Storage σ) : Storage σ :=
  tower.foldl Layer.over S

/-- What all keys start with: the starts of the views, from the innermost to the outermost. -/
def Tower.scope (tower : List Layer) : Key := tower.foldl Layer.within Key.root

section

variable {σ : Type} {S : Storage σ} {table : σ → LockTable} {scope : Key}

/-- The locks of a storage are those of a lock table in its state, over the same keys with one start
before them. -/
structure Storage.LocksUnder (S : Storage σ) (table : σ → LockTable) (scope : Key) : Prop extends
    S.LocksFrom table where
  covers : ∀ keys s, (S.locking.make keys s).1 = ((table s).make (keys.map scope.join)).1 ∧
    table (S.locking.make keys s).2 = ((table s).make (keys.map scope.join)).2

theorem Backend.locksUnder_locked (b : Backend σ) : b.locked.LocksUnder Prod.snd Key.root where
  toLocksFrom := b.locksFrom_locked
  covers keys s := by
    rw [List.map_congr_left fun k _ => Key.root_join k, List.map_id']
    exact ⟨rfl, rfl⟩

theorem Storage.LocksUnder.view (h : S.LocksUnder table scope) (inner : Key) :
    (S.view inner).LocksUnder table (scope.join inner) where
  toLocksFrom := h.toLocksFrom.view inner
  covers keys s := by
    have hkeys : keys.map (scope.join inner).join = (keys.map inner.join).map scope.join := by
      rw [List.map_map]
      exact List.map_congr_left fun k _ => Key.join_join scope inner k
    rw [hkeys]
    exact h.covers (keys.map inner.join) s

theorem Storage.LocksUnder.logged (h : S.LocksUnder table scope) :
    S.logged.LocksUnder table scope where
  toLocksFrom := h.toLocksFrom.logged
  covers := h.covers

theorem Storage.LocksUnder.over (h : S.LocksUnder table scope) (layer : Layer) :
    (layer.over S).LocksUnder table (layer.within scope) := by
  cases layer with
  | view inner => exact h.view inner
  | logged => exact h.logged
  | shared => exact h

/-- A tower takes its locks in the storage below, over keys with the starts of all its views. -/
theorem Storage.LocksUnder.tower (h : S.LocksUnder table scope) (tower : List Layer) :
    (Tower.storage tower S).LocksUnder table (tower.foldl Layer.within scope) := by
  -- from the storage below outwards, so that every layer adds to the end of the start
  induction tower generalizing S scope with
  | nil => exact h
  | cons layer rest ih => exact ih (h.over layer)

/-- A transaction is begun by a lock made over the keys below, and a request for it. -/
theorem Storage.LocksUnder.begin (h : S.LocksUnder table scope) (keys : List Key) (s : σ) :
    (S.begin keys s).1 = ⟨Key.ordered keys, (table s).fresh, (table s).fresh + 1⟩ ∧
      table (S.begin keys s).2 =
        (((table s).make ((Key.ordered keys).map scope.join)).2.request (table s).fresh).2 := by
  obtain ⟨hlock, hmade⟩ := h.covers (Key.ordered keys) s
  obtain ⟨hticket, hasked⟩ := h.request (S.locking.make (Key.ordered keys) s).1
    (S.locking.make (Key.ordered keys) s).2
  rw [hmade] at hticket hasked
  constructor
  · show (⟨_, _, _⟩ : PendingTransaction) = _
    rw [hticket, hlock]
    rfl
  · show table (S.locking.request _ _).2 = _
    rw [hasked, hlock]
    rfl

/-! ## Deeds of a transaction -/

/-- What a transaction does to the table concerns its own lock and its own request. -/
def LockAction.Concerns (l : LockId) (t : TicketId) : LockAction → Prop
  | .make _ | .request _ => False
  | .poll u | .cancel u => u = t
  | .release m | .discard m => m = l

theorem LockAction.Concerns.spares {l m : LockId} {t u : TicketId} {a : LockAction}
    (h : a.Concerns l t) (hl : l ≠ m) (ht : t ≠ u) : a.Spares m u := by
  cases a with
  | make _ => trivial
  | request _ => exact h.elim
  | poll v | cancel v => exact h ▸ ht
  | release v | discard v => exact h ▸ hl

theorem LockAction.Concerns.ne {l : LockId} {t : TicketId} {a : LockAction} (h : a.Concerns l t) :
    (∀ keys, a ≠ .make keys) ∧ ∀ m, a ≠ .request m := by
  constructor <;> rintro _ rfl <;> exact h

/-- The turn that a deed is in the life of a transaction. Where there is no background, a dropped
transaction has no such turn. -/
def TransactionDeed.turn? {σ : Type} (now : Time) : TransactionDeed → Option (Turn σ)
  | .poll => some .poll
  | .withdraw => some .withdraw
  | .ask r => some (.ask r now)
  | .finish ending => some (.finish ending)
  | .drop true => some .drop
  | .drop false => none
  | .giveBack => some .giveBack

variable {pending : PendingTransaction} {stage : Stage} {s : σ}

theorem Storage.transact_turn {deed : TransactionDeed} {now : Time} (turn : Turn σ)
    (h : deed.turn? now = some turn) :
    (S.transact pending stage deed now s).2 = stage.turn S pending turn s := by
  cases deed with
  | poll =>
    obtain rfl := Option.some.inj h
    cases stage with
    | waiting =>
      simp only [transact, Stage.turn]
      rcases S.poll pending s with ⟨_ | _ | _, events, after⟩ <;> rfl
    | _ => rfl
  | ask r =>
    obtain rfl := Option.some.inj h
    cases stage with
    | active tx =>
      simp only [transact, Stage.turn, Transaction.answer]
      cases tx.outside? r <;> rfl
    | _ => rfl
  | drop background =>
    cases background with
    | false => cases h
    | true =>
      obtain rfl := Option.some.inj h
      cases stage <;> rfl
  | withdraw | finish _ | giveBack =>
    obtain rfl := Option.some.inj h
    cases stage <;> rfl

theorem Storage.transact_granted (h : (S.locking.poll pending.ticket s).1 = .granted) (now : Time) :
    (S.transact pending .waiting .poll now s).2.1 = .active ⟨pending.keys, pending.lock⟩ := by
  rw [transact_turn .poll rfl, Stage.turn_poll]
  rcases hpoll : S.locking.poll pending.ticket s with ⟨progress, events, after⟩
  obtain rfl : progress = .granted := by rw [← h, hpoll]
  rfl

theorem TransactionDeed.turn?_spares {deed : TransactionDeed} {now : Time} {turn : Turn σ}
    (h : deed.turn? now = some turn) (l : LockId) (t : TicketId) : turn.Spares table l t := by
  cases deed with
  | drop background => cases background <;> cases h; trivial
  | _ => cases h; trivial

namespace Stage.Tied

/-- A deed keeps the tie of a transaction to its lock. -/
theorem transact (L : S.LocksFrom table) (h : stage.Tied pending (table s)) (deed : TransactionDeed)
    (now : Time) :
    (S.transact pending stage deed now s).2.1.Tied pending
      (table (S.transact pending stage deed now s).2.2) := by
  cases hturn : (deed.turn? now : Option (Turn σ)) with
  | some turn =>
    rw [Storage.transact_turn turn hturn]
    exact (h.turn L (deed.turn?_spares hturn _ _)).1
  | none =>
    obtain rfl : deed = .drop false := by
      cases deed with
      | drop background => cases background <;> [rfl; cases hturn]
      | _ => cases hturn
    cases stage with
    | active tx =>
      show (Stage.ended (.ok ())).Tied pending (table (S.locking.discard tx.lock s))
      rw [L.discard, h.stage.1]
      exact discarded h.reserved rfl
    | _ => exact h

/-- A deed of a transaction concerns its own lock only. -/
theorem transact_concerns (L : S.LocksFrom table) (h : stage.Tied pending (table s))
    (deed : TransactionDeed) (now : Time) :
    ∃ actions : List LockAction, (∀ a ∈ actions, a.Concerns pending.lock pending.ticket) ∧
      table (S.transact pending stage deed now s).2.2 = (table s).run actions := by
  have hnone : ∀ s', table s' = table s → ∃ actions : List LockAction,
      (∀ a ∈ actions, a.Concerns pending.lock pending.ticket) ∧ table s' = (table s).run actions :=
    fun s' hs => ⟨[], by simp, hs⟩
  have hleave : ∀ tx : Transaction, tx.lock = pending.lock →
      table (S.locking.discard tx.lock (S.locking.release tx.lock s).2) =
        (table s).run [.release pending.lock, .discard pending.lock] := by
    intro tx htx
    rw [htx, L.discard, (L.release _ _).2]
    rfl
  cases stage with
  | waiting =>
    cases deed with
    | poll =>
      refine ⟨[.poll pending.ticket], by simp [LockAction.Concerns], ?_⟩
      obtain ⟨hprogress, hafter⟩ := L.poll pending.ticket s
      rw [Storage.transact_turn .poll rfl, turn_poll]
      rcases hpoll : S.locking.poll pending.ticket s with ⟨_ | _ | e, events, after⟩
      · exact (hpoll ▸ hafter : table after = _)
      · exact (hpoll ▸ hafter : table after = _)
      · rw [hpoll] at hprogress
        split at hprogress <;> cases hprogress
    | withdraw =>
      refine ⟨[.cancel pending.ticket, .discard pending.lock], by simp [LockAction.Concerns], ?_⟩
      show table (S.withdraw pending s) = _
      simp only [Storage.withdraw, L.discard, L.cancel]
      rfl
    | _ => exact hnone _ rfl
  | active tx =>
    have htx : tx.lock = pending.lock := h.stage.1
    cases deed with
    | ask r =>
      refine hnone _ ?_
      rw [Storage.transact_turn (.ask r now) rfl]
      simp only [Stage.turn, Transaction.answer]
      cases tx.outside? r with
      | some key => rfl
      | none => exact L.answer r now s
    | finish ending =>
      refine ⟨[.release pending.lock, .discard pending.lock], by simp [LockAction.Concerns], ?_⟩
      show table (tx.finish S ending s).2 = _
      rw [Transaction.finish_state]
      exact hleave tx htx
    | drop background =>
      cases background with
      | true => exact hnone _ rfl
      | false =>
        refine ⟨[.discard pending.lock], by simp [LockAction.Concerns], ?_⟩
        show table (S.locking.discard tx.lock s) = _
        rw [L.discard, htx]
        rfl
    | _ => exact hnone _ rfl
  | leaving tx =>
    cases deed with
    | giveBack =>
      exact ⟨[.release pending.lock, .discard pending.lock], by simp [LockAction.Concerns],
        hleave tx h.stage.1⟩
    | _ => exact hnone _ rfl
  | withdrawn | refused cause | ended outcome => cases deed <;> exact hnone _ rfl

end Stage.Tied

/-! ## Parties -/

/-- A transaction over keys of a tower. -/
structure Party where
  tower : List Layer
  keys : List Key
  pending : PendingTransaction
  stage : Stage

namespace Party

/-- The keys of the storage below that the keys of a transaction stand for. -/
def wanted (p : Party) : List Key := p.pending.keys.map (Tower.scope p.tower).join

/-- The seat of a transaction at the storage below. -/
def seat (p : Party) : Seat := ⟨p.pending.lock, p.pending.ticket, p.wanted⟩

/-- Some key of one transaction and some key of the other stand for the same key of the storage
below. -/
def Overlaps (p q : Party) : Prop :=
  ∃ k ∈ p.keys, ∃ k' ∈ q.keys, (Tower.scope p.tower).join k = (Tower.scope q.tower).join k'

instance decidableOverlaps (p q : Party) : Decidable (p.Overlaps q) :=
  inferInstanceAs (Decidable (∃ k ∈ p.keys, ∃ k' ∈ q.keys, _ = _))

theorem overlaps_iff {p q : Party} (hp : p.pending.keys = Key.ordered p.keys)
    (hq : q.pending.keys = Key.ordered q.keys) : ¬ p.Overlaps q ↔ p.wanted.Disjoint q.wanted := by
  unfold Overlaps wanted
  simp only [hp, hq, List.disjoint_left, List.mem_map, Key.mem_ordered]
  constructor
  · rintro hn _ ⟨k, hk, rfl⟩ ⟨k', hk', he⟩
    exact hn ⟨k, hk, k', hk', he.symm⟩
  · rintro hd ⟨k, hk, k', hk', he⟩
    exact hd ⟨k, hk, rfl⟩ ⟨k', hk', he.symm⟩

end Party

/-- The transaction was granted, and its lock is not yet given back. -/
def Stage.isOpen : Stage → Bool
  | .active _ | .leaving _ => true
  | .waiting | .withdrawn | .refused _ | .ended _ => false

/-- What happens to parties: a new one begins a transaction, one does something with its own, or
somebody asks a request outside of transactions. -/
inductive PartyAction
  | enter (tower : List Layer) (keys : List Key)
  | step (i : Nat) (deed : TransactionDeed) (now : Time)
  | ask (tower : List Layer) (r : Request) (now : Time)

/-- Parties with the storage that they share. -/
structure Parties (σ : Type) where
  store : σ
  parties : List Party := []

namespace Parties

/-- The parties after an action. -/
def act (S : Storage σ) (c : Parties σ) : PartyAction → Parties σ
  | .enter tower keys =>
    let (pending, store) := (Tower.storage tower S).begin keys c.store
    { store, parties := c.parties ++ [⟨tower, keys, pending, .waiting⟩] }
  | .step i deed now =>
    match c.parties[i]? with
    | none => c
    | some p =>
      let (_, stage, store) := (Tower.storage p.tower S).transact p.pending p.stage deed now c.store
      { store, parties := c.parties.set i { p with stage } }
  | .ask tower r now => { c with store := ((Tower.storage tower S).answer r now c.store).2 }

/-- The parties after actions, one after the other. -/
def run (S : Storage σ) (c : Parties σ) (actions : List PartyAction) : Parties σ :=
  actions.foldl (act S) c

/-- Every party has a seat of its own, and relies on its lock. -/
structure Tied (table : σ → LockTable) (c : Parties σ) : Prop where
  seated : LockTable.Seated (c.parties.map Party.seat) (table c.store)
  tied : ∀ p ∈ c.parties, p.stage.Tied p.pending (table c.store)
  asked : ∀ p ∈ c.parties, p.pending.keys = Key.ordered p.keys

variable {c : Parties σ}

theorem act_enter (S : Storage σ) (c : Parties σ) (tower : List Layer) (keys : List Key) :
    c.act S (.enter tower keys) =
      ⟨((Tower.storage tower S).begin keys c.store).2,
        c.parties ++ [⟨tower, keys, ((Tower.storage tower S).begin keys c.store).1, .waiting⟩]⟩ :=
  rfl

namespace Tied

theorem enter (L : S.LocksUnder table Key.root) (h : c.Tied table) (tower : List Layer)
    (keys : List Key) : (c.act S (.enter tower keys)).Tied table := by
  have L' : (Tower.storage tower S).LocksUnder table (Tower.scope tower) := L.tower tower
  obtain ⟨hpending, hafter⟩ := L'.begin keys c.store
  have hbegin := Stage.Tied.begin L'.toLocksFrom h.seated.sound keys
  have hseats := h.seated.enter ((Key.ordered keys).map (Tower.scope tower).join)
  refine ⟨?seated, ?tied, ?asked⟩
  case seated =>
    have hseat :
        Party.seat ⟨tower, keys, ((Tower.storage tower S).begin keys c.store).1, .waiting⟩ =
          ⟨(table c.store).fresh, (table c.store).fresh + 1,
            (Key.ordered keys).map (Tower.scope tower).join⟩ := by
      rw [hpending]
      rfl
    rw [act_enter, List.map_append, List.map_singleton, hseat, hafter]
    exact hseats
  case tied =>
    intro p hp
    rcases List.mem_append.mp hp with hp | hp
    · have hreserved := (h.tied p hp).reserved
      show p.stage.Tied p.pending (table (Storage.begin _ _ _).2)
      rw [hafter, LockTable.request_make_eq]
      refine (h.tied p hp).spares_run ?_
      simpa [LockAction.Spares] using Ne.symm (Nat.ne_of_lt hreserved.lock_lt)
    · obtain rfl := List.mem_singleton.mp hp
      exact hbegin
  case asked =>
    intro p hp
    rcases List.mem_append.mp hp with hp | hp
    · exact h.asked p hp
    · obtain rfl := List.mem_singleton.mp hp
      exact congrArg PendingTransaction.keys hpending

theorem step (L : S.LocksUnder table Key.root) (h : c.Tied table) (i : Nat)
    (deed : TransactionDeed) (now : Time) : (c.act S (.step i deed now)).Tied table := by
  unfold Parties.act
  simp only
  split
  · exact h
  rename_i p hp
  have L' : (Tower.storage p.tower S).LocksUnder table (Tower.scope p.tower) := L.tower p.tower
  have hm : p ∈ c.parties := List.mem_of_getElem? hp
  have htied := (h.tied p hm).transact L'.toLocksFrom deed now
  obtain ⟨actions, hconcerns, hafter⟩ :=
    (h.tied p hm).transact_concerns L'.toLocksFrom deed now
  generalize (Tower.storage p.tower S).transact p.pending p.stage deed now c.store = done
    at htied hafter
  obtain ⟨account, stage, store⟩ := done
  simp only at htied hafter ⊢
  have hothers : ∀ q ∈ c.parties.set i { p with stage }, q = { p with stage } ∨
      q ∈ c.parties ∧ p.pending.lock ≠ q.pending.lock ∧ p.pending.ticket ≠ q.pending.ticket := by
    intro q hq
    obtain ⟨j, hj⟩ := List.mem_iff_getElem?.mp hq
    by_cases hij : i = j
    · subst hij
      rw [List.getElem?_set_self (List.getElem?_eq_some_iff.mp hp).1] at hj
      exact Or.inl (Option.some.inj hj).symm
    · rw [List.getElem?_set_ne hij] at hj
      exact Or.inr ⟨List.mem_of_getElem? hj,
        h.seated.ne (by simp [hp]; rfl) (by simp [hj]; rfl) hij⟩
  refine ⟨?seated, ?tied, ?asked⟩
  case seated =>
    have hseats : (c.parties.set i { p with stage }).map Party.seat = c.parties.map Party.seat := by
      refine List.ext_getElem? fun j => ?_
      rw [List.getElem?_map, List.getElem?_map, List.getElem?_set]
      split
      · rename_i hij
        rw [← hij, hp, if_pos (List.getElem?_eq_some_iff.mp hp).1]
        rfl
      · rfl
    rw [hseats, hafter]
    exact h.seated.run fun a ha => (hconcerns a ha).ne
  case tied =>
    intro q hq
    rcases hothers q hq with rfl | ⟨hq, hl, ht⟩
    · exact htied
    · rw [hafter]
      exact (h.tied q hq).spares_run fun a ha => (hconcerns a ha).spares hl ht
  case asked =>
    intro q hq
    rcases hothers q hq with rfl | ⟨hq, -⟩
    · exact h.asked p hm
    · exact h.asked q hq

theorem act (L : S.LocksUnder table Key.root) (h : c.Tied table) (a : PartyAction) :
    (c.act S a).Tied table := by
  cases a with
  | enter tower keys => exact h.enter L tower keys
  | step i deed now => exact h.step L i deed now
  | ask tower r now =>
    have hsame : table ((Tower.storage tower S).answer r now c.store).2 = table c.store :=
      (L.tower tower).answer r now c.store
    exact ⟨hsame ▸ h.seated, fun p hp => hsame ▸ h.tied p hp, h.asked⟩

theorem run (L : S.LocksUnder table Key.root) (h : c.Tied table) (actions : List PartyAction) :
    (c.run S actions).Tied table := by
  induction actions generalizing c with
  | nil => exact h
  | cons a rest ih => exact ih (h.act L a)

/-- Open transactions have no key of the storage below in common. -/
theorem disjoint (h : c.Tied table) {i j : Nat} {p q : Party} (hi : c.parties[i]? = some p)
    (hj : c.parties[j]? = some q) (hij : i ≠ j) (hp : p.stage.isOpen) (hq : q.stage.isOpen) :
    p.wanted.Disjoint q.wanted := by
  have hheld : ∀ r ∈ c.parties, r.stage.isOpen → (table c.store).isHeld r.seat.lock := by
    intro r hr ho
    have hstage := (h.tied r hr).stage
    cases hs : r.stage with
    | active tx | leaving tx =>
      rw [hs] at hstage
      exact hstage.2
    | waiting | withdrawn | refused cause | ended outcome =>
      rw [hs] at ho
      cases ho
  have hpm := List.mem_of_getElem? hi
  have hqm := List.mem_of_getElem? hj
  have hne : p.seat.lock ≠ q.seat.lock ∧ p.seat.ticket ≠ q.seat.ticket :=
    h.seated.ne (by simp [hi]) (by simp [hj]) hij
  exact h.seated.disjoint (List.mem_map_of_mem hpm) (List.mem_map_of_mem hqm) hne.1
    (hheld p hpm hp) (hheld q hqm hq)

/-- A transaction is granted by a poll if it has no key of the storage below in common with another
one that is open or waits. -/
theorem granted (L : S.LocksUnder table Key.root) (h : c.Tied table) {i : Nat} {p : Party}
    (hi : c.parties[i]? = some p) (hp : p.stage = .waiting)
    (hfree : ∀ j q, j ≠ i → c.parties[j]? = some q → ¬ q.stage.isOver → p.wanted.Disjoint q.wanted)
    (now : Time) :
    (c.act S (.step i .poll now)).parties[i]? =
      some { p with stage := .active ⟨p.pending.keys, p.pending.lock⟩ } := by
  have L' : (Tower.storage p.tower S).LocksUnder table (Tower.scope p.tower) := L.tower p.tower
  have hm : p ∈ c.parties := List.mem_of_getElem? hi
  have hwaits : ((table c.store).tickets.get? p.pending.ticket).isSome := by
    have hstage := (h.tied p hm).stage
    rwa [hp] at hstage
  have hgranted : ((table c.store).poll p.pending.ticket).1 = true := by
    refine h.seated.granted (List.mem_map_of_mem hm) hwaits ?_
    intro other hother hne hthere
    obtain ⟨q, hq, rfl⟩ := List.mem_map.mp hother
    obtain ⟨j, hj⟩ := List.mem_iff_getElem?.mp hq
    refine hfree j q ?_ hj fun hover => ?_
    · rintro rfl
      obtain rfl : p = q := Option.some.inj (hi.symm.trans hj)
      exact hne rfl
    · rw [show q.seat.lock = q.pending.lock from rfl, (h.tied q hq).gone hover] at hthere
      cases hthere
  have hprogress := (L'.poll p.pending.ticket c.store).1
  rw [hgranted, if_pos rfl] at hprogress
  have hactive : ((Tower.storage p.tower S).transact p.pending p.stage .poll now c.store).2.1 =
      .active ⟨p.pending.keys, p.pending.lock⟩ := by
    rw [hp]
    exact Storage.transact_granted hprogress now
  simp only [Parties.act, hi, hactive]
  exact List.getElem?_set_self (List.getElem?_eq_some_iff.mp hi).1

end Tied

theorem tied_run (b : Backend σ) (s : σ) (actions : List PartyAction) :
    (run b.locked ⟨(s, {}), []⟩ actions).Tied Prod.snd := by
  have hstart : Tied Prod.snd (⟨(s, {}), []⟩ : Parties (σ × LockTable)) :=
    ⟨LockTable.Seated.empty, by simp, by simp⟩
  exact hstart.run b.locksUnder_locked actions

/-- **One table of locks.** In every run of transactions through towers of views, logged storages
and shared handles over one storage, two that are open together stand for no common key of the
storage, if a transaction is counted as open until its lock is given back. One that waits, and
stands for no common key with another that is open or waits, is granted by its next poll. -/
theorem exclusive (b : Backend σ) (s : σ) (actions : List PartyAction) :
    let c := run b.locked ⟨(s, {}), []⟩ actions
    (∀ (i j : Nat) (p q : Party), i ≠ j → c.parties[i]? = some p → c.parties[j]? = some q →
      p.stage.isOpen → q.stage.isOpen → ¬ p.Overlaps q) ∧
    ∀ (i : Nat) (p : Party) (now : Time), c.parties[i]? = some p → p.stage = .waiting →
      (∀ (j : Nat) (q : Party), j ≠ i → c.parties[j]? = some q →
        q.stage.isOpen ∨ q.stage = .waiting → ¬ p.Overlaps q) →
      (c.act b.locked (.step i .poll now)).parties[i]? =
        some { p with stage := .active ⟨Key.ordered p.keys, p.pending.lock⟩ } := by
  intro c
  have h : c.Tied Prod.snd := tied_run b s actions
  have hasked : ∀ {i : Nat} {p : Party}, c.parties[i]? = some p →
      p.pending.keys = Key.ordered p.keys :=
    fun hp => h.asked _ (List.mem_of_getElem? hp)
  constructor
  · intro i j p q hij hp hq hopen hopen'
    exact (Party.overlaps_iff (hasked hp) (hasked hq)).mpr (h.disjoint hp hq hij hopen hopen')
  · intro i p now hp hwaiting hfree
    rw [← hasked hp]
    refine h.granted b.locksUnder_locked hp hwaiting ?_ now
    intro j q hji hq hover
    refine (Party.overlaps_iff (hasked hp) (hasked hq)).mp (hfree j q hji hq ?_)
    cases hs : q.stage <;> simp_all [Stage.isOpen, Stage.isOver]

/-! One transaction on the storage itself was dropped and still holds its lock. Another one, through
a logged view, waits for a key of it. A third one, through a view of a view, has other keys. -/

/-- A transaction that was dropped and has not left. -/
def sampleDropped : Party :=
  { tower := []
    keys := [⟨["c"]⟩, ⟨["a", "b"]⟩]
    pending := ⟨[⟨["a", "b"]⟩, ⟨["c"]⟩], 0, 1⟩
    stage := .leaving ⟨[⟨["a", "b"]⟩, ⟨["c"]⟩], 0⟩ }

/-- A transaction that waits, through a logged view. -/
def sampleWaiting : Party :=
  { tower := [.view ⟨["a"]⟩, .logged]
    keys := [⟨["b"]⟩]
    pending := ⟨[⟨["b"]⟩], 2, 3⟩
    stage := .waiting }

/-- A transaction over other keys, through a view of a view. -/
def sampleApart : Party :=
  { tower := [.shared, .view ⟨["a"]⟩, .view ⟨["x"]⟩]
    keys := [⟨["y"]⟩, .root]
    pending := ⟨[.root, ⟨["y"]⟩], 4, 5⟩
    stage := .waiting }

/-- The three come one after the other, and the first is dropped. -/
def sampleActions : List PartyAction :=
  [.enter sampleDropped.tower sampleDropped.keys, .step 0 .poll ⟨0⟩,
    .enter sampleWaiting.tower sampleWaiting.keys, .step 1 .poll ⟨0⟩,
    .enter sampleApart.tower sampleApart.keys, .step 0 (.drop true) ⟨0⟩]

theorem exclusive_on_sampleActions :
    let c := run Memory.backend.locked ⟨(.empty, {}), []⟩ sampleActions
    c.parties = [sampleDropped, sampleWaiting, sampleApart] ∧
      sampleDropped.Overlaps sampleWaiting ∧
      ¬ sampleApart.Overlaps sampleDropped ∧ ¬ sampleApart.Overlaps sampleWaiting ∧
      (c.act Memory.backend.locked (.step 2 .poll ⟨1⟩)).parties[2]? =
        some { sampleApart with stage := .active ⟨Key.ordered sampleApart.keys, 4⟩ } := by
  intro c
  have hparties : c.parties = [sampleDropped, sampleWaiting, sampleApart] := rfl
  have hdropped : ¬ sampleApart.Overlaps sampleDropped := by decide
  have hwaiting : ¬ sampleApart.Overlaps sampleWaiting := by decide
  refine ⟨hparties, by decide, hdropped, hwaiting, ?_⟩
  refine (exclusive Memory.backend .empty sampleActions).2 2 sampleApart ⟨1⟩ rfl rfl ?_
  intro j q hj hq _
  match j, hq with
  | 0, rfl => exact hdropped
  | 1, rfl => exact hwaiting
  | 2, _ => exact absurd rfl hj

end Parties

end

end BlobStore
