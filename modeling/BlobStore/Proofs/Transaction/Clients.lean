import BlobStore.Proofs.Lock.Exclusion
import BlobStore.Proofs.Lock.Frame
import BlobStore.Proofs.Transaction.Script

/-!
# Clients of one storage

Any number of clients share a storage and touch it only through transactions, each with a script of
its own. A step is one thing that one client does; between two steps of a client the others may do
anything. While a transaction is open its lock is held, so the scripts of clients whose
transactions are open at the same time are over disjoint keys.

## Main definitions

* `Client`, `Stage`: a client and how far it has come with its transaction
* `Client.step`: what a client does next
* `Clients`, `Clients.run`: all clients with their storage, and their runs
* `Clients.Linked`: the invariant that ties the clients to the locks

## Main results

* `Client.Linked.step`: every step of a client keeps its tie to the locks, and is a grant, a request
  or nothing that touches contents
* `Clients.linked_run`: the invariant holds after every run
* `Clients.Linked.disjoint`: transactions that are open together have no key in common
-/

namespace BlobStore

/-! ## Clients -/

/-- How far a client has come with its transaction. -/
inductive Stage
  | waiting
  | withdrawn
  | refused (cause : StorageError)
  | active (tx : Transaction)
  /-- The transaction was dropped, and its lock is still to be given back in the background. -/
  | leaving (tx : Transaction)
  | ended (outcome : Except StorageError Unit)

/-- A client: the transaction that it asked for, its script, the part of the script that is left,
and what it has heard. -/
structure Client where
  pending : PendingTransaction
  script : Script
  rest : Script
  stage : Stage := .waiting
  log : List Exchange := []

namespace Client

/-- The transaction that a client gets when its lock is granted. -/
def transaction (client : Client) : Transaction := ⟨client.pending.keys, client.pending.lock⟩

/-- The transaction was granted, whether it is still open or not. -/
def hasBegun (client : Client) : Bool :=
  match client.stage with
  | .active _ | .leaving _ | .ended _ => true
  | .waiting | .withdrawn | .refused _ => false

/-- The transaction is open. -/
def isActive (client : Client) : Prop := ∃ tx, client.stage = .active tx

instance decidableIsActive (client : Client) : Decidable client.isActive :=
  match h : client.stage with
  | .active tx => .isTrue ⟨tx, h⟩
  | .waiting | .withdrawn | .refused _ | .leaving _ | .ended _ =>
    .isFalse fun ⟨_, ha⟩ => nomatch h.symm.trans ha

end Client

/-- What a client can do; what does not fit its stage changes nothing. -/
inductive ClientStep
  | poll
  | withdraw
  | ask (now : Time)
  | close
  /-- The background gives back the lock of a dropped transaction. -/
  | giveBack
deriving DecidableEq, Repr

section

variable {σ : Type} (S : Storage σ)

/-- A client after a step, and the state of the storage. -/
def Client.step (client : Client) (a : ClientStep) (s : σ) : Client × σ :=
  match a, client.stage, client.rest with
  | .poll, .waiting, _ =>
    match S.poll client.pending s with
    | (none, _, s) => (client, s)
    | (some (.ok tx), _, s) => ({ client with stage := .active tx }, s)
    | (some (.error e), _, s) => ({ client with stage := .refused e }, s)
  | .withdraw, .waiting, _ =>
    ({ client with stage := .withdrawn }, S.withdraw client.pending s)
  | .ask now, .active tx, .ask r next =>
    let (result, s) := tx.hear S r now s
    ({ client with rest := next result, log := client.log ++ [⟨r, result⟩] }, s)
  | .close, .active tx, .stop (.finish ending) =>
    let (reply, s) := tx.finish S ending s
    ({ client with stage := .ended reply.result }, s)
  | .close, .active tx, .stop (.drop true) => ({ client with stage := .leaving tx }, s)
  | .close, .active tx, .stop (.drop false) =>
    ({ client with stage := .ended (.ok ()) }, (tx.drop S false s).2)
  | .giveBack, .leaving tx, _ =>
    ({ client with stage := .ended (.ok ()) }, (tx.giveBack S s).2)
  | _, _, _ => (client, s)

end

/-- What happens to clients: a new one comes and asks for a transaction, or one does a step. -/
inductive ClientAction
  | enter (keys : List Key) (script : Script)
  | step (i : Nat) (a : ClientStep)

/-- Clients with the storage that they share. -/
structure Clients (σ : Type) where
  store : σ
  clients : List Client := []
  /-- The places of the clients whose transactions were granted, in the order of the grants. -/
  granted : List Nat := []

namespace Clients

section

variable {σ : Type} (S : Storage σ)

/-- The clients after an action; a step of a client that is not there does nothing. -/
def act (c : Clients σ) : ClientAction → Clients σ
  | .enter keys script =>
    let (pending, store) := S.begin keys c.store
    { c with store, clients := c.clients ++ [⟨pending, script, script, .waiting, []⟩] }
  | .step i a =>
    match c.clients[i]? with
    | none => c
    | some client =>
      let (after, store) := client.step S a c.store
      let granted := if !client.hasBegun && after.hasBegun then c.granted ++ [i] else c.granted
      { store, clients := c.clients.set i after, granted }

/-- The clients after actions, one after the other. -/
def run (c : Clients σ) (actions : List ClientAction) : Clients σ := actions.foldl (act S) c

end

/-- The clients whose transactions were granted, in the order of the grants. -/
def grants {σ : Type} (c : Clients σ) : List Client := c.granted.filterMap (c.clients[·]?)

end Clients

/-! ## A client and its lock -/

/-- A lock over the keys of a client is in the table under the number that the client knows. -/
def Client.HasLock (client : Client) (table : LockTable) (h : KeysLock) : Prop :=
  table.locks.get? client.pending.lock = some h ∧ ∀ k, k ∈ h.keys ↔ k ∈ client.pending.keys

/-- What a client relies on: while it waits its request is there, and while its transaction is open
or left to the background its lock is held. -/
def Client.Linked (client : Client) (table : LockTable) : Prop :=
  match client.stage with
  | .waiting =>
    (∃ h, client.HasLock table h) ∧ (∃ x, table.tickets.get? client.pending.ticket = some x ∧
      x.lock = client.pending.lock) ∧ client.rest = client.script ∧ client.log = []
  | .withdrawn => True
  | .refused _ => False
  | .active tx => tx = client.transaction ∧ ∃ h, client.HasLock table h ∧ h.isHeld
  | .leaving tx => tx = client.transaction ∧ (∃ h, client.HasLock table h ∧ h.isHeld) ∧
      ∃ closing, client.rest = .stop closing
  | .ended outcome => outcome = .ok () ∧ ∃ closing, client.rest = .stop closing

/-- What others do with their locks does not concern a client. -/
theorem Client.Linked.keeps {client : Client} {l : LockId} {before after : LockTable}
    (h : client.Linked before) (k : LockTable.Keeps l before after)
    (hl : client.pending.lock ≠ l) : client.Linked after := by
  have hlock : ∀ h, client.HasLock before h → client.HasLock after h := by
    rintro h ⟨hget, hkeys⟩
    exact ⟨(k.locks _ hl).trans hget, hkeys⟩
  unfold Linked at h ⊢
  cases hs : client.stage with
  | waiting =>
    simp only [hs] at h ⊢
    obtain ⟨⟨lock, hlk⟩, ⟨x, hx, hxl⟩, hrest⟩ := h
    exact ⟨⟨lock, hlock lock hlk⟩, ⟨x, k.tickets _ x (hxl ▸ hl) hx, hxl⟩, hrest⟩
  | active tx =>
    simp only [hs] at h ⊢
    obtain ⟨rfl, lock, hlk, hheld⟩ := h
    exact ⟨rfl, lock, hlock lock hlk, hheld⟩
  | leaving tx =>
    simp only [hs] at h ⊢
    obtain ⟨rfl, ⟨lock, hlk, hheld⟩, hrest⟩ := h
    exact ⟨rfl, ⟨lock, hlock lock hlk, hheld⟩, hrest⟩
  | withdrawn => trivial
  | refused cause => simp only [hs] at h
  | ended outcome =>
    simp only [hs] at h ⊢
    exact h

/-! ## One step -/

section

open Memory (storage)

/-- What a step of a client does to contents and scripts. -/
inductive Client.Effect (client after : Client) (s s' : Memory.State) : Prop
  /-- Nothing is asked, and the grant is as it was. -/
  | quiet (log : after.log = client.log) (rest : after.rest = client.rest) (store : s'.1 = s.1)
      (begun : after.hasBegun = client.hasBegun)
  /-- The transaction is granted. -/
  | granted (log : after.log = []) (rest : after.rest = client.script) (store : s'.1 = s.1)
      (before : client.hasBegun = false) (begun : after.hasBegun = true)
  /-- One request is asked in the open transaction. -/
  | asked (r : Request) (next : Except StorageError r.Answer → Script)
      (result : Except StorageError r.Answer) (now : Time)
      (stage : client.stage = .active client.transaction) (rest : client.rest = .ask r next)
      (hear : client.transaction.hear storage r now s = (result, s'))
      (left : after.rest = next result) (log : after.log = client.log ++ [⟨r, result⟩])
      (begun : after.hasBegun = true)

/-- A transaction that was granted stays granted. -/
theorem Client.Effect.hasBegun {client after : Client} {s s' : Memory.State}
    (e : client.Effect after s s') (h : client.hasBegun = true) : after.hasBegun = true := by
  cases e with
  | quiet _ _ _ begun => exact begun.trans h
  | granted _ _ _ before _ => exact absurd h (by simp [before])
  | asked _ _ _ _ _ _ _ _ _ begun => exact begun

/-- A step of a client, in all that the others and the run as a whole have to know of it. -/
structure Client.StepSpec (client after : Client) (s s' : Memory.State) : Prop where
  pending : after.pending = client.pending
  script : after.script = client.script
  sound : s'.2.Sound
  keeps : LockTable.Keeps client.pending.lock s.2 s'.2
  linked : after.Linked s'.2
  effect : client.Effect after s s'

variable {client : Client} {s : Memory.State}

/-- A step that does nothing. -/
theorem Client.StepSpec.refl (hs : s.2.Sound) (h : client.Linked s.2) :
    client.StepSpec client s s :=
  ⟨rfl, rfl, hs, LockTable.Keeps.refl _ _, h, .quiet rfl rfl rfl rfl⟩

/-- A held lock is given back. -/
theorem LockTable.release_result {table : LockTable} {l : LockId} {h : KeysLock}
    (hl : table.locks.get? l = some h) (hh : h.isHeld) : (table.release l).1 = .ok () := by
  obtain ⟨g, hg⟩ := Option.isSome_iff_exists.mp hh
  unfold release
  simp only [hl, hg]

/-- A finished transaction has given its lock back and dropped it. -/
theorem Transaction.finish_storage (tx : Transaction) {h : KeysLock} (ending : Ending)
    (hl : s.2.locks.get? tx.lock = some h) (hh : h.isHeld) :
    (tx.finish storage ending s).1.result = .ok () ∧
      (tx.finish storage ending s).2 = (s.1, (s.2.release tx.lock).2.discard tx.lock) := by
  have hr := LockTable.release_result hl hh
  simp only [finish, Backend.locked, Locking.within, Part.step, Part.second, LockTable.locking]
  generalize s.2.release tx.lock = p at hr
  obtain ⟨result, after⟩ := p
  simp only at hr
  subst hr
  exact ⟨rfl, rfl⟩

theorem Transaction.giveBack_storage (tx : Transaction) (s : Memory.State) :
    (tx.giveBack storage s).2 = (s.1, (s.2.release tx.lock).2.discard tx.lock) := by
  simp only [giveBack, Backend.locked, Locking.within, Part.step, Part.second, LockTable.locking]
  generalize s.2.release tx.lock = p
  obtain ⟨result, after⟩ := p
  cases result <;> rfl

theorem Client.Linked.poll (hs : s.2.Sound) (hw : client.stage = .waiting)
    (h : client.Linked s.2) :
    client.StepSpec (client.step storage .poll s).1 s (client.step storage .poll s).2 := by
  unfold Linked at h
  simp only [hw] at h
  obtain ⟨⟨lock, hget, hkeys⟩, ⟨x, hx, hxl⟩, hrest, hlog⟩ := h
  obtain ⟨hkeeps, hcases⟩ := hs.poll_cases hx
  rw [hxl] at hkeeps hcases
  have hsound := hs.poll client.pending.ticket
  unfold step
  simp only [hw]
  simp only [Storage.poll, storage, Backend.locked, Locking.within, Part.second,
    LockTable.locking]
  generalize s.2.poll client.pending.ticket = p at hkeeps hcases hsound
  obtain ⟨done, after⟩ := p
  simp only at hkeeps hcases hsound
  rcases hcases with ⟨lock', hget', rfl, hheld⟩ | ⟨rfl, hlocks, y, hy, hyl⟩
  · obtain rfl : lock = lock' := Option.some.inj (hget.symm.trans hget')
    refine ⟨rfl, rfl, hsound, hkeeps, ?_, .granted hlog hrest rfl ?_ rfl⟩
    · exact ⟨rfl, _, ⟨hheld, hkeys⟩, rfl⟩
    · simp [hasBegun, hw]
  · refine ⟨rfl, rfl, hsound, hkeeps, ?_, .quiet rfl rfl rfl rfl⟩
    unfold Linked
    simp only [hw]
    exact ⟨⟨lock, by rw [HasLock, hlocks]; exact ⟨hget, hkeys⟩⟩, ⟨y, hy, hyl⟩, hrest, hlog⟩

theorem Client.Linked.withdraw (hs : s.2.Sound) (hw : client.stage = .waiting)
    (h : client.Linked s.2) :
    client.StepSpec (client.step storage .withdraw s).1 s (client.step storage .withdraw s).2 := by
  unfold Linked at h
  simp only [hw] at h
  obtain ⟨-, ⟨x, hx, hxl⟩, -⟩ := h
  have hcancel : LockTable.Keeps client.pending.lock s.2 (s.2.cancel client.pending.ticket) := by
    apply LockTable.keeps_cancel s.2
    intro y hy
    obtain rfl : x = y := Option.some.inj (hx.symm.trans hy)
    exact hxl
  have hsound := hs.cancel client.pending.ticket
  unfold step
  simp only [hw]
  refine ⟨rfl, rfl, hsound.discard _, hcancel.trans (hsound.keeps_discard _), trivial,
    .quiet rfl rfl rfl ?_⟩
  simp [hasBegun, hw]

theorem Client.Linked.ask (hs : s.2.Sound) {r : Request}
    {next : Except StorageError r.Answer → Script} (hr : client.rest = .ask r next)
    {tx : Transaction} (ha : client.stage = .active tx) (h : client.Linked s.2) (now : Time) :
    client.StepSpec (client.step storage (.ask now) s).1 s
      (client.step storage (.ask now) s).2 := by
  obtain ⟨pending, script, rest, stage, log⟩ := client
  subst hr ha
  obtain ⟨htx, hheld⟩ := h
  obtain rfl : tx = ⟨pending.keys, pending.lock⟩ := htx
  have hlocks := Transaction.hear_locks ⟨pending.keys, pending.lock⟩ r s now
  unfold step
  refine ⟨rfl, rfl, hlocks ▸ hs, hlocks ▸ LockTable.Keeps.refl _ _, ?_, ?_⟩
  · exact ⟨rfl, hlocks ▸ hheld⟩
  · exact .asked r next _ now rfl rfl rfl rfl rfl rfl

/-- A transaction whose lock is gone has ended, and touched no contents thereby. -/
theorem Client.StepSpec.ended (client : Client) {closing : Closing}
    (hr : client.rest = .stop closing) (hb : client.hasBegun = true) {after : LockTable}
    (ha : after.Sound)
    (hk : LockTable.Keeps client.pending.lock s.2 after) :
    client.StepSpec { client with stage := .ended (.ok ()) } s (s.1, after) :=
  ⟨rfl, rfl, ha, hk, ⟨rfl, closing, hr⟩, .quiet rfl rfl rfl hb.symm⟩

theorem Client.Linked.close (hs : s.2.Sound) {closing : Closing} (hr : client.rest = .stop closing)
    {tx : Transaction} (ha : client.stage = .active tx) (h : client.Linked s.2) :
    client.StepSpec (client.step storage .close s).1 s (client.step storage .close s).2 := by
  obtain ⟨pending, script, rest, stage, log⟩ := client
  subst hr ha
  obtain ⟨htx, lock, ⟨hget, hkeys⟩, hheld⟩ := h
  obtain rfl : tx = ⟨pending.keys, pending.lock⟩ := htx
  have hreleased := hs.release pending.lock
  unfold step
  cases closing with
  | finish ending =>
    obtain ⟨hok, hafter⟩ :=
      Transaction.finish_storage ⟨pending.keys, pending.lock⟩ ending hget hheld
    simp only [hok, hafter]
    exact .ended ⟨pending, script, _, _, log⟩ rfl rfl (hreleased.discard _)
      ((LockTable.keeps_release _ _).trans (hreleased.keeps_discard _))
  | drop background =>
    cases background with
    | true =>
      refine ⟨rfl, rfl, hs, LockTable.Keeps.refl _ _, ?_, .quiet rfl rfl rfl rfl⟩
      exact ⟨rfl, ⟨lock, ⟨hget, hkeys⟩, hheld⟩, _, rfl⟩
    | false =>
      exact .ended ⟨pending, script, _, _, log⟩ rfl rfl (hs.discard _)
        (hs.keeps_discard _)

theorem Client.Linked.giveBack (hs : s.2.Sound) {tx : Transaction} (ha : client.stage = .leaving tx)
    (h : client.Linked s.2) :
    client.StepSpec (client.step storage .giveBack s).1 s
      (client.step storage .giveBack s).2 := by
  have hb : client.hasBegun = true := by simp [hasBegun, ha]
  unfold Linked at h
  simp only [ha] at h
  obtain ⟨rfl, -, closing, hr⟩ := h
  have hreleased := hs.release client.pending.lock
  unfold step
  simp only [ha, Transaction.giveBack_storage]
  exact .ended client hr hb (hreleased.discard _)
    ((LockTable.keeps_release _ _).trans (hreleased.keeps_discard _))

/-- Every step of a client keeps its tie to the locks. A step that does not fit its stage does
nothing. -/
theorem Client.Linked.step (hs : s.2.Sound) (h : client.Linked s.2) (a : ClientStep) :
    client.StepSpec (client.step storage a s).1 s (client.step storage a s).2 := by
  cases a with
  | poll =>
    by_cases hw : client.stage = .waiting
    · exact h.poll hs hw
    · unfold Client.step
      cases hst : client.stage <;> first | exact absurd hst hw | exact .refl hs h
  | withdraw =>
    by_cases hw : client.stage = .waiting
    · exact h.withdraw hs hw
    · unfold Client.step
      cases hst : client.stage <;> first | exact absurd hst hw | exact .refl hs h
  | ask now =>
    cases ha : client.stage with
    | active tx =>
      cases hr : client.rest with
      | ask r next => exact h.ask hs hr ha now
      | stop closing => simp only [Client.step, ha, hr]; exact .refl hs h
    | _ => simp only [Client.step, ha]; exact .refl hs h
  | close =>
    cases ha : client.stage with
    | active tx =>
      cases hr : client.rest with
      | ask r next => simp only [Client.step, ha, hr]; exact .refl hs h
      | stop closing => exact h.close hs hr ha
    | _ => simp only [Client.step, ha]; exact .refl hs h
  | giveBack =>
    cases ha : client.stage with
    | leaving tx => exact h.giveBack hs ha
    | _ => simp only [Client.step, ha]; exact .refl hs h

/-! ## All clients -/

namespace Clients

/-- Every client is tied to its lock, and no two know the same lock. -/
structure Linked (c : Clients Memory.State) : Prop where
  sound : c.store.2.Sound
  linked : ∀ client ∈ c.clients, client.Linked c.store.2
  apart : (c.clients.map (·.pending.lock)).Nodup
  lock_lt : ∀ client ∈ c.clients, client.pending.lock < c.store.2.fresh
  granted_nodup : c.granted.Nodup
  granted_iff : ∀ i, i ∈ c.granted ↔ ∃ client, c.clients[i]? = some client ∧ client.hasBegun = true

theorem linked_start (m : Memory) : Linked ⟨(m, {}), [], []⟩ where
  sound := LockTable.sound_empty
  linked client h := by simp at h
  apart := List.nodup_nil
  lock_lt client h := by simp at h
  granted_nodup := List.nodup_nil
  granted_iff i := by simp

variable {c : Clients Memory.State}

/-- A client that comes in waits for a lock of its own. -/
theorem Linked.enter (h : c.Linked) (keys : List Key) (script : Script) :
    (c.act storage (.enter keys script)).Linked := by
  have hsound := h.sound.make (Key.ordered keys)
  have hmade := LockTable.get?_make c.store.2 (Key.ordered keys)
  have hkeeps : LockTable.Keeps c.store.2.fresh c.store.2
      ((c.store.2.make (Key.ordered keys)).2.request c.store.2.fresh).2 :=
    (LockTable.keeps_make _ _).trans (hsound.keeps_request _)
  have hfresh : ∀ client ∈ c.clients, client.pending.lock ≠ c.store.2.fresh :=
    fun client hm => Nat.ne_of_lt (h.lock_lt client hm)
  refine ⟨hsound.request hmade, ?linked, ?apart, ?lock_lt, h.granted_nodup, ?granted_iff⟩
  case linked =>
    intro client hm
    rcases List.mem_append.mp hm with hm | hm
    · exact (h.linked client hm).keeps hkeeps (hfresh client hm)
    · obtain rfl := List.mem_singleton.mp hm
      exact ⟨⟨_, hmade, fun k => Key.mem_ordered⟩, ⟨_, LockTable.get?_request _ _, rfl⟩, rfl, rfl⟩
  case apart =>
    simp only [act, List.map_append, List.map_cons, List.map_nil]
    refine List.nodup_append.mpr ⟨h.apart, List.nodup_singleton _, ?_⟩
    intro l hl l' hl'
    obtain ⟨client, hm, rfl⟩ := List.mem_map.mp hl
    rw [List.mem_singleton.mp hl']
    exact hfresh client hm
  case lock_lt =>
    intro client hm
    rcases List.mem_append.mp hm with hm | hm
    · exact Nat.lt_of_lt_of_le (h.lock_lt client hm) hkeeps.fresh
    · obtain rfl := List.mem_singleton.mp hm
      exact Nat.lt_succ_of_lt (Nat.lt_succ_self _)
  case granted_iff =>
    intro i
    rw [show (c.act storage (.enter keys script)).granted = c.granted from rfl, h.granted_iff i]
    constructor
    · rintro ⟨client, hc, hb⟩
      obtain ⟨hi, -⟩ := List.getElem?_eq_some_iff.mp hc
      exact ⟨client, by simp only [act]; rw [List.getElem?_append_left hi]; exact hc, hb⟩
    · rintro ⟨client, hc, hb⟩
      simp only [act] at hc
      rcases Nat.lt_or_ge i c.clients.length with hi | hi
      · rw [List.getElem?_append_left hi] at hc
        exact ⟨client, hc, hb⟩
      · rw [List.getElem?_append_right hi, List.getElem?_singleton] at hc
        split at hc
        · cases hc
          cases hb
        · cases hc

/-- The clients after one of them was replaced. -/
theorem getElem?_set_of_some {clients : List Client} {i : Nat} {client : Client}
    (hc : clients[i]? = some client) (after : Client) (j : Nat) :
    (clients.set i after)[j]? = if i = j then some after else clients[j]? := by
  obtain ⟨hi, -⟩ := List.getElem?_eq_some_iff.mp hc
  rw [List.getElem?_set]
  split
  · simp
  · rfl

/-- No other client knows the lock of a client. -/
theorem Linked.lock_ne (h : c.Linked) {i j : Nat} {client other : Client}
    (hc : c.clients[i]? = some client) (ho : c.clients[j]? = some other) (hij : i ≠ j) :
    other.pending.lock ≠ client.pending.lock := by
  obtain ⟨hi, rfl⟩ := List.getElem?_eq_some_iff.mp hc
  obtain ⟨hj, rfl⟩ := List.getElem?_eq_some_iff.mp ho
  intro he
  have hn := h.apart
  rw [List.nodup_iff_injective_getElem] at hn
  have := @hn ⟨i, by simpa using hi⟩ ⟨j, by simpa using hj⟩ (by simpa using he.symm)
  exact hij (congrArg Fin.val this)

/-- A client replaced by what became of it in a step. -/
theorem Linked.replace (h : c.Linked) {i : Nat} {client after : Client} {store : Memory.State}
    (hc : c.clients[i]? = some client) (spec : client.StepSpec after c.store store)
    {granted : List Nat} (hn : granted.Nodup)
    (hg : ∀ j, j ∈ granted ↔ (if i = j then after.hasBegun = true else j ∈ c.granted)) :
    Linked ⟨store, c.clients.set i after, granted⟩ := by
  have hm : client ∈ c.clients := List.mem_of_getElem? hc
  have hother : ∀ other ∈ c.clients.set i after, other = after ∨
      (other ∈ c.clients ∧ other.pending.lock ≠ client.pending.lock) := by
    intro other ho
    obtain ⟨j, ho⟩ := List.mem_iff_getElem?.mp ho
    rw [getElem?_set_of_some hc] at ho
    split at ho
    · exact Or.inl (Option.some.inj ho).symm
    · exact Or.inr ⟨List.mem_of_getElem? ho, h.lock_ne hc ho ‹_›⟩
  refine ⟨spec.sound, ?linked, ?apart, ?lock_lt, hn, ?granted_iff⟩
  case linked =>
    intro other ho
    rcases hother other ho with rfl | ⟨ho, hne⟩
    · exact spec.linked
    · exact (h.linked other ho).keeps spec.keeps hne
  case apart =>
    have hlocks : (c.clients.set i after).map (·.pending.lock) =
        c.clients.map (·.pending.lock) := by
      apply List.ext_getElem?
      intro j
      rw [List.getElem?_map, List.getElem?_map, getElem?_set_of_some hc]
      split
      · rename_i hij
        subst hij
        simp [hc, spec.pending]
      · rfl
    exact hlocks ▸ h.apart
  case lock_lt =>
    intro other ho
    rcases hother other ho with rfl | ⟨ho, -⟩
    · rw [spec.pending]
      exact Nat.lt_of_lt_of_le (h.lock_lt client hm) spec.keeps.fresh
    · exact Nat.lt_of_lt_of_le (h.lock_lt other ho) spec.keeps.fresh
  case granted_iff =>
    intro j
    rw [hg j, getElem?_set_of_some hc]
    split
    · simp
    · exact h.granted_iff j

/-- A step of one client, seen by all. -/
theorem Linked.step (h : c.Linked) (i : Nat) (a : ClientStep) :
    (c.act storage (.step i a)).Linked := by
  unfold act
  simp only
  split
  · exact h
  · rename_i client hc
    have spec := (h.linked client (List.mem_of_getElem? hc)).step h.sound a
    generalize client.step storage a c.store = p at spec
    obtain ⟨after, store⟩ := p
    have hi : i ∈ c.granted ↔ client.hasBegun = true := by simp [h.granted_iff, hc]
    apply h.replace hc spec
    · split
      · rename_i hb
        have hnot : i ∉ c.granted := by
          rw [hi]
          simp_all
        exact List.nodup_append.mpr ⟨h.granted_nodup, List.nodup_singleton i,
          fun j hj k hk he => hnot (by rw [List.mem_singleton.mp hk] at he; exact he ▸ hj)⟩
      · exact h.granted_nodup
    · intro j
      have hmono := spec.effect.hasBegun
      by_cases hij : i = j
      · subst hij
        cases hb : client.hasBegun <;> cases ha : after.hasBegun <;> simp_all
      · split <;> simp [Ne.symm hij]

theorem Linked.act (h : c.Linked) (a : ClientAction) : (c.act storage a).Linked := by
  cases a with
  | enter keys script => exact h.enter keys script
  | step i a => exact h.step i a

theorem Linked.run (h : c.Linked) (actions : List ClientAction) :
    (c.run storage actions).Linked := by
  induction actions generalizing c with
  | nil => exact h
  | cons a rest ih => exact ih (h.act a)

/-- **Two-phase locking.** Transactions that are open together have no key in common. -/
theorem Linked.disjoint (h : c.Linked) {i j : Nat} {a b : Client} (ha : c.clients[i]? = some a)
    (hb : c.clients[j]? = some b) (hij : i ≠ j) (ia : a.isActive) (ib : b.isActive) :
    ∀ k ∈ a.transaction.scope, k ∉ b.transaction.scope := by
  obtain ⟨tx, ia⟩ := ia
  obtain ⟨tx', ib⟩ := ib
  have la := h.linked a (List.mem_of_getElem? ha)
  have lb := h.linked b (List.mem_of_getElem? hb)
  unfold Client.Linked at la lb
  simp only [ia] at la
  simp only [ib] at lb
  obtain ⟨-, k, ⟨hk, hkeys⟩, hheld⟩ := la
  obtain ⟨-, k', ⟨hk', hkeys'⟩, hheld'⟩ := lb
  intro key hka hkb
  refine h.sound.not_both_held (k := key) (h.lock_ne ha hb hij) ?_ ?_ ⟨?_, ?_⟩
  · simp only [LockTable.keysOf, hk']
    exact (hkeys' key).mpr hkb
  · simp only [LockTable.keysOf, hk]
    exact (hkeys key).mpr hka
  · simp only [LockTable.isHeld, hk', hheld']
  · simp only [LockTable.isHeld, hk, hheld]

/-- No transaction is refused, and none fails to end. -/
theorem Linked.outcome (h : c.Linked) {client : Client} (hm : client ∈ c.clients) :
    (∀ cause, client.stage ≠ .refused cause) ∧
      ∀ outcome, client.stage = .ended outcome → outcome = .ok () := by
  have hl := h.linked client hm
  unfold Client.Linked at hl
  constructor
  · intro cause hs
    simp only [hs] at hl
  · intro outcome hs
    simp only [hs] at hl
    exact hl.1

end Clients

end

end BlobStore
