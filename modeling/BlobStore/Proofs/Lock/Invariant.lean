import BlobStore.Proofs.Lock.Mutexes

/-!
# Runs of a lock table

A run is a list of actions on a table that starts empty. The invariant ties the mutexes to the
requests and to the locks: whoever has taken a key owns its mutex, and a mutex is owned or queued on
only by those who have taken its key or come to it next. Every action keeps it, in every order.

## Main definitions

* `LockAction`, `LockTable.act`, `LockTable.run`: the actions and their runs
* `LockTable.Owns`, `LockTable.Awaits`: who has taken a key, and whose next key it is
* `LockTable.Sound`: the invariant

## Main results

* `LockTable.Sound.act`: every action keeps the invariant
* `LockTable.sound_run`: it holds after every run
-/

namespace BlobStore

/-- What can be done with a lock table. Locks and requests are named by their numbers. -/
inductive LockAction
  /-- A new lock over a set of keys. -/
  | make (keys : List Key)
  /-- An acquire started on a lock that is there. -/
  | request (lock : LockId)
  /-- An acquire that waits is polled. -/
  | poll (ticket : TicketId)
  /-- An acquire that waits is cancelled. -/
  | cancel (ticket : TicketId)
  | release (lock : LockId)
  /-- A lock dropped, with its acquires that wait. -/
  | discard (lock : LockId)
deriving DecidableEq, Repr

namespace LockTable

/-- The table after an action. An action on something that is not there changes nothing. -/
def act (table : LockTable) : LockAction → LockTable
  | .make keys => (table.make keys).2
  | .request lock => if (table.locks.get? lock).isSome then (table.request lock).2 else table
  | .poll t => (table.poll t).2
  | .cancel t => table.cancel t
  | .release lock => (table.release lock).2
  | .discard lock => table.discard lock

/-- The table after actions, one after the other. -/
def run (table : LockTable) (actions : List LockAction) : LockTable := actions.foldl act table

/-! ## The invariant -/

/-- The mutex of a key; one that is not there is free. -/
def mutex (table : LockTable) (k : Key) : Mutex := Mutexes.read table.mutexes k

/-- The request `t` has taken the key: it waits and has collected it, or it was granted and the
lock is still held by it. -/
def Owns (table : LockTable) (t : TicketId) (k : Key) : Prop :=
  (∃ x, table.tickets.get? t = some x ∧ k ∈ x.taken) ∨
    ∃ l h g, table.locks.get? l = some h ∧ h.held = some g ∧ g.ticket = t ∧ k ∈ g.keys

/-- The request `t` waits, and the key is the next that it has to take. -/
def Awaits (table : LockTable) (t : TicketId) (k : Key) : Prop :=
  ∃ x, table.tickets.get? t = some x ∧ x.remaining.head? = some k

/-- What holds of a lock table after any run: locks and requests have numbers of their own, what a
request has taken and has still to take are the keys of its lock, and every mutex serves those who
have taken or await its key. -/
structure Sound (table : LockTable) : Prop where
  locks_sorted : table.locks.Sorted
  tickets_sorted : table.tickets.Sorted
  lock_lt : ∀ l h, table.locks.get? l = some h → l < table.fresh
  ticket_lt : ∀ t x, table.tickets.get? t = some x → t < table.fresh
  keys_sorted : ∀ l h, table.locks.get? l = some h → h.keys.Pairwise (· < ·)
  ticket_keys : ∀ t x, table.tickets.get? t = some x →
    ∃ h, table.locks.get? x.lock = some h ∧ x.taken ++ x.remaining = h.keys
  grant_keys : ∀ l h g, table.locks.get? l = some h → h.held = some g → g.keys = h.keys
  grant_lt : ∀ l h g, table.locks.get? l = some h → h.held = some g → g.ticket < table.fresh
  /-- A request that was granted waits no longer. -/
  grant_done : ∀ l h g, table.locks.get? l = some h → h.held = some g →
    table.tickets.get? g.ticket = none
  grant_inj : ∀ l h g l' h' g', table.locks.get? l = some h → h.held = some g →
    table.locks.get? l' = some h' → h'.held = some g' → g.ticket = g'.ticket → l = l'
  serves : ∀ k, (table.mutex k).Serves (table.Owns · k) (table.Awaits · k)

theorem sound_empty : Sound {} where
  locks_sorted := OrderedMap.sorted_empty
  tickets_sorted := OrderedMap.sorted_empty
  lock_lt l h hl := by simp at hl
  ticket_lt t x ht := by simp at ht
  keys_sorted l h hl := by simp at hl
  ticket_keys t x ht := by simp at ht
  grant_keys l h g hl := by simp at hl
  grant_lt l h g hl := by simp at hl
  grant_done l h g hl := by simp at hl
  grant_inj l h g l' h' g' hl := by simp at hl
  serves k := by
    apply Mutex.Serves.unowned
    intro t ht
    rcases ht with ⟨x, hx, -⟩ | ⟨l, h, g, hl, -⟩
    · simp at hx
    · simp at hl

namespace Sound

variable {table : LockTable} {t : TicketId} {x : Ticket} {l : LockId} {h : KeysLock}

theorem remaining_nodup (s : table.Sound) (ht : table.tickets.get? t = some x) :
    x.remaining.Nodup := by
  obtain ⟨h, hl, hk⟩ := s.ticket_keys t x ht
  have hn := Key.nodup_of_pairwise (s.keys_sorted x.lock h hl)
  rw [← hk] at hn
  exact (List.nodup_append.mp hn).2.1

theorem ticket_keys_eq (s : table.Sound) (ht : table.tickets.get? t = some x)
    (hl : table.locks.get? x.lock = some h) : x.taken ++ x.remaining = h.keys := by
  obtain ⟨h', hl', hk⟩ := s.ticket_keys t x ht
  obtain rfl : h = h' := Option.some.inj (hl.symm.trans hl')
  exact hk

/-- A request is still for the keys of its lock when a lock is held, or put down. -/
theorem ticket_keys_put (s : table.Sound) (hl : table.locks.get? l = some h)
    (ht : table.tickets.get? t = some x) (held : Option Grant) :
    ∃ j, (table.locks.put l { h with held }).get? x.lock = some j ∧
      x.taken ++ x.remaining = j.keys := by
  obtain ⟨j, hj, hk⟩ := s.ticket_keys t x ht
  by_cases he : l = x.lock
  · obtain rfl : h = j := Option.some.inj ((he ▸ hl).symm.trans hj)
    exact ⟨{ h with held }, OrderedMap.get?_put_eq_some.mpr (Or.inl ⟨he, rfl⟩), hk⟩
  · exact ⟨j, OrderedMap.get?_put_eq_some.mpr (Or.inr ⟨he, hj⟩), hk⟩

/-- No lock is held by a request that waits. -/
theorem grant_ne (s : table.Sound) (ht : table.tickets.get? t = some x) {g : Grant}
    (hl : table.locks.get? l = some h) (hg : h.held = some g) : g.ticket ≠ t := by
  rintro rfl
  rw [s.grant_done l h g hl hg] at ht
  cases ht

/-! ### New locks and requests -/

/-- The new lock is not held, so a grant that is there was there before. -/
theorem grant_of_make {keys : List Key} {g : Grant}
    (hl : (table.make keys).2.locks.get? l = some h) (hg : h.held = some g) :
    table.locks.get? l = some h := by
  rcases OrderedMap.get?_put_eq_some.mp hl with ⟨-, rfl⟩ | ⟨-, hl⟩
  · simp at hg
  · exact hl

theorem get?_make_of_some (s : table.Sound) (keys : List Key)
    (hl : table.locks.get? l = some h) : (table.make keys).2.locks.get? l = some h :=
  OrderedMap.get?_put_eq_some.mpr (Or.inr ⟨(Nat.ne_of_lt (s.lock_lt l h hl)).symm, hl⟩)

/-- A new lock makes nobody an owner. -/
theorem owns_make (s : table.Sound) (keys : List Key) (u : TicketId) (k : Key) :
    (table.make keys).2.Owns u k ↔ table.Owns u k := by
  refine or_congr Iff.rfl ⟨?_, ?_⟩
  · rintro ⟨l, h, g, hl, hg, hr⟩
    exact ⟨l, h, g, grant_of_make hl hg, hg, hr⟩
  · rintro ⟨l, h, g, hl, hr⟩
    exact ⟨l, h, g, s.get?_make_of_some keys hl, hr⟩

theorem make (s : table.Sound) (keys : List Key) : (table.make keys).2.Sound := by
  refine ⟨s.locks_sorted.put _ _, s.tickets_sorted, ?lock_lt, ?ticket_lt, ?keys_sorted,
    ?ticket_keys, ?grant_keys, ?grant_lt, ?grant_done, ?grant_inj, ?serves⟩
  case lock_lt =>
    intro l h hl
    rcases OrderedMap.get?_put_eq_some.mp hl with ⟨rfl, -⟩ | ⟨-, hl⟩
    · exact Nat.lt_succ_self _
    · exact Nat.lt_succ_of_lt (s.lock_lt l h hl)
  case ticket_lt =>
    intro t x ht
    exact Nat.lt_succ_of_lt (s.ticket_lt t x ht)
  case keys_sorted =>
    intro l h hl
    rcases OrderedMap.get?_put_eq_some.mp hl with ⟨-, rfl⟩ | ⟨-, hl⟩
    · exact Key.ordered_pairwise keys
    · exact s.keys_sorted l h hl
  case ticket_keys =>
    intro t x ht
    obtain ⟨h, hl, hk⟩ := s.ticket_keys t x ht
    exact ⟨h, s.get?_make_of_some keys hl, hk⟩
  case grant_keys =>
    intro l h g hl hg
    exact s.grant_keys l h g (grant_of_make hl hg) hg
  case grant_lt =>
    intro l h g hl hg
    exact Nat.lt_succ_of_lt (s.grant_lt l h g (grant_of_make hl hg) hg)
  case grant_done =>
    intro l h g hl hg
    exact s.grant_done l h g (grant_of_make hl hg) hg
  case grant_inj =>
    intro l h g l' h' g' hl hg hl' hg'
    exact s.grant_inj l h g l' h' g' (grant_of_make hl hg) hg (grant_of_make hl' hg') hg'
  case serves =>
    intro k
    exact (s.serves k).mono (fun u => s.owns_make keys u k) (fun u ha => ha)

theorem get?_request_of_some (s : table.Sound) (l : LockId)
    (ht : table.tickets.get? t = some x) : (table.request l).2.tickets.get? t = some x :=
  OrderedMap.get?_put_eq_some.mpr (Or.inr ⟨(Nat.ne_of_lt (s.ticket_lt t x ht)).symm, ht⟩)

/-- A new request has taken nothing yet. -/
theorem owns_request (s : table.Sound) (l : LockId) (u : TicketId) (k : Key) :
    (table.request l).2.Owns u k ↔ table.Owns u k := by
  refine or_congr ⟨?_, ?_⟩ Iff.rfl
  · rintro ⟨x, hx, hk⟩
    rcases OrderedMap.get?_put_eq_some.mp hx with ⟨-, rfl⟩ | ⟨-, hx⟩
    · simp at hk
    · exact ⟨x, hx, hk⟩
  · rintro ⟨x, hx, hk⟩
    exact ⟨x, s.get?_request_of_some l hx, hk⟩

theorem request (s : table.Sound) (hl : table.locks.get? l = some h) :
    (table.request l).2.Sound := by
  have hkeys : table.keysOf l = h.keys := by simp [keysOf, hl]
  refine ⟨s.locks_sorted, s.tickets_sorted.put _ _, ?lock_lt, ?ticket_lt, s.keys_sorted,
    ?ticket_keys, s.grant_keys, ?grant_lt, ?grant_done, s.grant_inj, ?serves⟩
  case lock_lt =>
    intro l' h' hl'
    exact Nat.lt_succ_of_lt (s.lock_lt l' h' hl')
  case ticket_lt =>
    intro t x ht
    rcases OrderedMap.get?_put_eq_some.mp ht with ⟨rfl, -⟩ | ⟨-, ht⟩
    · exact Nat.lt_succ_self _
    · exact Nat.lt_succ_of_lt (s.ticket_lt t x ht)
  case ticket_keys =>
    intro t x ht
    rcases OrderedMap.get?_put_eq_some.mp ht with ⟨-, rfl⟩ | ⟨-, ht⟩
    · exact ⟨h, hl, hkeys⟩
    · exact s.ticket_keys t x ht
  case grant_lt =>
    intro l' h' g hl' hg
    exact Nat.lt_succ_of_lt (s.grant_lt l' h' g hl' hg)
  case grant_done =>
    intro l' h' g hl' hg
    have hne : table.fresh ≠ g.ticket := (Nat.ne_of_lt (s.grant_lt l' h' g hl' hg)).symm
    simp only [LockTable.request, OrderedMap.get?_put, if_neg hne]
    exact s.grant_done l' h' g hl' hg
  case serves =>
    intro k
    refine (s.serves k).mono (fun u => s.owns_request l u k) ?_
    rintro u ⟨x, hx, hk⟩
    exact ⟨x, s.get?_request_of_some l hx, hk⟩

/-! ### Polls -/

/-- The owners and the queues after a request has collected keys: `t` owns what it took, and
awaits the first key that it did not get. -/
theorem serves_collected (s : table.Sound) (ht : table.tickets.get? t = some x)
    {taken remaining : List Key} {after : Mutexes}
    (c : Mutexes.Collected t x.remaining table.mutexes taken remaining after) (k : Key) :
    (Mutexes.read after k).Serves (fun u => table.Owns u k ∨ (u = t ∧ k ∈ taken))
      (fun u => (u ≠ t ∧ table.Awaits u k) ∨ (u = t ∧ remaining.head? = some k)) := by
  have hs := s.serves k
  rw [c.claimed k]
  by_cases hk : k ∈ taken
  · rw [if_pos (Or.inl hk)]
    apply (hs.take (c.granted k hk)).mono
    · intro u
      simp [hk]
    · intro u hu
      exact Or.inl ⟨hu.2, hu.1⟩
  · by_cases hh : remaining.head? = some k
    · rw [if_pos (Or.inr hh)]
      apply (hs.enqueue (c.refused k hh)).mono
      · intro u
        simp [hk]
      · intro u hu
        by_cases hut : u = t
        · exact Or.inr ⟨hut, hh⟩
        · exact Or.inl ⟨hut, hu.resolve_right hut⟩
    · rw [if_neg (not_or.mpr ⟨hk, hh⟩)]
      refine hs.mono (fun u => by simp [hk]) (fun u hu => Or.inl ⟨?_, hu⟩)
      rintro rfl
      obtain ⟨x', hx', hhead⟩ := hu
      obtain rfl : x = x' := Option.some.inj (ht.symm.trans hx')
      rw [← c.split] at hhead
      cases taken with
      | nil => exact hh hhead
      | cons j rest => exact hk (by simpa using Or.inl (Option.some.inj hhead).symm)

/-- A key that a request took, before or now, is its own. -/
theorem owns_of_mem (ht : table.tickets.get? t = some x) {taken : List Key} {k : Key}
    (hk : k ∈ x.taken ++ taken) : table.Owns t k ∨ (t = t ∧ k ∈ taken) := by
  rcases List.mem_append.mp hk with hk | hk
  · exact Or.inl (Or.inl ⟨x, ht, hk⟩)
  · exact Or.inr ⟨rfl, hk⟩

/-- What a request has taken when nothing remains is held from now on. A lock that covers a key is
not held at that time, so nothing is given up. -/
theorem hold_eq (s : table.Sound) (ht : table.tickets.get? t = some x)
    (hl : table.locks.get? x.lock = some h) {taken : List Key} {after : Mutexes}
    (c : Mutexes.Collected t x.remaining table.mutexes taken [] after) :
    hold { table with mutexes := after, tickets := table.tickets.erase t } x.lock
        ⟨t, x.taken ++ taken⟩ =
      { table with
        mutexes := after, tickets := table.tickets.erase t
        locks := table.locks.put x.lock { h with held := some ⟨t, x.taken ++ taken⟩ } } := by
  unfold hold
  simp only [hl]
  cases hh : h.held with
  | none => rfl
  | some before =>
    have hbk : before.keys = h.keys := s.grant_keys x.lock h before hl hh
    have hk : x.taken ++ x.remaining = h.keys := s.ticket_keys_eq ht hl
    have htk : taken = x.remaining := by simpa using c.split
    have hne : before.ticket ≠ t := s.grant_ne ht hl hh
    have hnil : before.keys = [] := by
      apply List.eq_nil_iff_forall_not_mem.mpr
      intro k hkb
      apply hne
      have ho : table.Owns before.ticket k := Or.inr ⟨x.lock, h, before, hl, hh, rfl, hkb⟩
      have hmem : k ∈ x.taken ++ x.remaining := by rw [hk, ← hbk]; exact hkb
      exact (s.serves_collected ht c k).owner_unique (Or.inl ho) (owns_of_mem ht (htk ▸ hmem))
    simp [giveUp, hnil, Mutexes.leaveAll]

/-- A grant after a lock was granted is the new one, or it was there before. -/
theorem grant_cases {l' : LockId} {h' : KeysLock} {g g' : Grant}
    (hl : (table.locks.put l { h with held := some g }).get? l' = some h')
    (hg : h'.held = some g') :
    (l' = l ∧ h'.keys = h.keys ∧ g' = g) ∨ (l' ≠ l ∧ table.locks.get? l' = some h') := by
  rcases OrderedMap.get?_put_eq_some.mp hl with ⟨rfl, rfl⟩ | ⟨hne, hl⟩
  · exact Or.inl ⟨rfl, rfl, (Option.some.inj hg).symm⟩
  · exact Or.inr ⟨Ne.symm hne, hl⟩

/-- When a request is granted, it owns what it took, and all own what they owned. -/
theorem owns_granted (s : table.Sound) (ht : table.tickets.get? t = some x)
    {taken : List Key} {after : Mutexes}
    (c : Mutexes.Collected t x.remaining table.mutexes taken [] after)
    (hl : table.locks.get? x.lock = some h) (u : TicketId) (k : Key) :
    Owns { table with
      mutexes := after, tickets := table.tickets.erase t
      locks := table.locks.put x.lock { h with held := some ⟨t, x.taken ++ taken⟩ } } u k ↔
      table.Owns u k ∨ (u = t ∧ k ∈ taken) := by
  have hnew : ∀ k, k ∈ x.taken ++ taken → Owns { table with
      mutexes := after, tickets := table.tickets.erase t
      locks := table.locks.put x.lock { h with held := some ⟨t, x.taken ++ taken⟩ } } t k :=
    fun k hk => Or.inr ⟨x.lock, { h with held := some ⟨t, x.taken ++ taken⟩ },
      ⟨t, x.taken ++ taken⟩, OrderedMap.get?_put_eq_some.mpr (Or.inl ⟨rfl, rfl⟩), rfl, rfl, hk⟩
  constructor
  · rintro (⟨y, hy, hky⟩ | ⟨l, j, g, hj, hg, rfl, hkg⟩)
    · exact Or.inl (Or.inl ⟨y, (OrderedMap.get?_erase_eq_some.mp hy).2, hky⟩)
    · rcases grant_cases hj hg with ⟨-, -, rfl⟩ | ⟨-, hj⟩
      · exact owns_of_mem ht hkg
      · exact Or.inl (Or.inr ⟨l, j, g, hj, hg, rfl, hkg⟩)
  · rintro ((⟨y, hy, hky⟩ | ⟨l, j, g, hj, hg, rfl, hkg⟩) | ⟨rfl, hkt⟩)
    · by_cases hut : t = u
      · subst hut
        obtain rfl : x = y := Option.some.inj (ht.symm.trans hy)
        exact hnew k (List.mem_append_left _ hky)
      · exact Or.inl ⟨y, OrderedMap.get?_erase_eq_some.mpr ⟨hut, hy⟩, hky⟩
    · by_cases he : x.lock = l
      · subst he
        obtain rfl : h = j := Option.some.inj (hl.symm.trans hj)
        have hkx : k ∈ x.taken ++ taken := by
          have htaken : taken = x.remaining := by simpa using c.split
          rw [htaken, s.ticket_keys_eq ht hl, ← s.grant_keys x.lock h g hl hg]
          exact hkg
        have hsame := (s.serves_collected ht c k).owner_unique
          (Or.inl (Or.inr ⟨x.lock, h, g, hl, hg, rfl, hkg⟩)) (owns_of_mem ht hkx)
        exact absurd hsame (s.grant_ne ht hl hg)
      · exact Or.inr ⟨l, j, g, OrderedMap.get?_put_eq_some.mpr (Or.inr ⟨he, hj⟩), hg, rfl, hkg⟩
    · exact hnew k (List.mem_append_right _ hkt)

theorem poll_granted (s : table.Sound) (ht : table.tickets.get? t = some x)
    {taken : List Key} {after : Mutexes}
    (c : Mutexes.Collected t x.remaining table.mutexes taken [] after)
    (hl : table.locks.get? x.lock = some h) :
    Sound { table with
      mutexes := after, tickets := table.tickets.erase t
      locks := table.locks.put x.lock { h with held := some ⟨t, x.taken ++ taken⟩ } } := by
  have hkeys : x.taken ++ taken = h.keys := by
    rw [← s.ticket_keys_eq ht hl, ← c.split, List.append_nil]
  refine ⟨s.locks_sorted.put _ _, s.tickets_sorted.erase t, ?lock_lt, ?ticket_lt, ?keys_sorted,
    ?ticket_keys, ?grant_keys, ?grant_lt, ?grant_done, ?grant_inj, ?serves⟩
  case lock_lt =>
    intro l j hj
    rcases OrderedMap.get?_put_eq_some.mp hj with ⟨rfl, -⟩ | ⟨-, hj⟩
    · exact s.lock_lt x.lock h hl
    · exact s.lock_lt l j hj
  case ticket_lt =>
    intro u y hu
    exact s.ticket_lt u y (OrderedMap.get?_erase_eq_some.mp hu).2
  case keys_sorted =>
    intro l j hj
    rcases OrderedMap.get?_put_eq_some.mp hj with ⟨-, rfl⟩ | ⟨-, hj⟩
    · exact s.keys_sorted x.lock h hl
    · exact s.keys_sorted l j hj
  case ticket_keys =>
    intro u y hu
    exact s.ticket_keys_put hl (OrderedMap.get?_erase_eq_some.mp hu).2 _
  case grant_keys =>
    intro l j g hj hg
    rcases grant_cases hj hg with ⟨-, hjk, rfl⟩ | ⟨-, hj⟩
    · rw [hjk]
      exact hkeys
    · exact s.grant_keys l j g hj hg
  case grant_lt =>
    intro l j g hj hg
    rcases grant_cases hj hg with ⟨-, -, rfl⟩ | ⟨-, hj⟩
    · exact s.ticket_lt t x ht
    · exact s.grant_lt l j g hj hg
  case grant_done =>
    intro l j g hj hg
    rw [OrderedMap.get?_erase]
    rcases grant_cases hj hg with ⟨-, -, rfl⟩ | ⟨-, hj⟩
    · simp
    · simp [s.grant_done l j g hj hg]
  case grant_inj =>
    intro l j g l' j' g' hj hg hj' hg' he
    rcases grant_cases hj hg with ⟨rfl, -, rfl⟩ | ⟨-, hj⟩ <;>
      rcases grant_cases hj' hg' with ⟨rfl, -, rfl⟩ | ⟨-, hj'⟩
    · rfl
    · exact absurd he.symm (s.grant_ne ht hj' hg')
    · exact absurd he (s.grant_ne ht hj hg)
    · exact s.grant_inj l j g l' j' g' hj hg hj' hg' he
  case serves =>
    intro k
    refine (s.serves_collected ht c k).mono (fun u => s.owns_granted ht c hl u k) ?_
    rintro u (⟨hut, y, hy, hky⟩ | ⟨-, hh⟩)
    · exact ⟨y, OrderedMap.get?_erase_eq_some.mpr ⟨Ne.symm hut, hy⟩, hky⟩
    · simp at hh

/-- When a request goes on to wait, it owns what it took, and all own what they owned. -/
theorem owns_waiting (ht : table.tickets.get? t = some x) (taken remaining : List Key)
    (after : Mutexes) (u : TicketId) (k : Key) :
    Owns { table with
      mutexes := after
      tickets := table.tickets.put t { x with taken := x.taken ++ taken, remaining } } u k ↔
      table.Owns u k ∨ (u = t ∧ k ∈ taken) := by
  have hnew : ∀ k, k ∈ x.taken ++ taken → Owns { table with
      mutexes := after
      tickets := table.tickets.put t { x with taken := x.taken ++ taken, remaining } } t k :=
    fun k hk => Or.inl ⟨{ x with taken := x.taken ++ taken, remaining },
      OrderedMap.get?_put_eq_some.mpr (Or.inl ⟨rfl, rfl⟩), hk⟩
  constructor
  · rintro (⟨y, hy, hky⟩ | hg)
    · rcases OrderedMap.get?_put_eq_some.mp hy with ⟨rfl, rfl⟩ | ⟨-, hy⟩
      · exact owns_of_mem ht hky
      · exact Or.inl (Or.inl ⟨y, hy, hky⟩)
    · exact Or.inl (Or.inr hg)
  · rintro ((⟨y, hy, hky⟩ | hg) | ⟨rfl, hkt⟩)
    · by_cases hut : t = u
      · subst hut
        obtain rfl : x = y := Option.some.inj (ht.symm.trans hy)
        exact hnew k (List.mem_append_left _ hky)
      · exact Or.inl ⟨y, OrderedMap.get?_put_eq_some.mpr (Or.inr ⟨hut, hy⟩), hky⟩
    · exact Or.inr hg
    · exact hnew k (List.mem_append_right _ hkt)

theorem poll_waiting (s : table.Sound) (ht : table.tickets.get? t = some x)
    {taken remaining : List Key} {after : Mutexes}
    (c : Mutexes.Collected t x.remaining table.mutexes taken remaining after) :
    Sound { table with
      mutexes := after
      tickets := table.tickets.put t { x with taken := x.taken ++ taken, remaining } } := by
  refine ⟨s.locks_sorted, s.tickets_sorted.put _ _, s.lock_lt, ?ticket_lt, s.keys_sorted,
    ?ticket_keys, s.grant_keys, s.grant_lt, ?grant_done, s.grant_inj, ?serves⟩
  case ticket_lt =>
    intro u y hu
    rcases OrderedMap.get?_put_eq_some.mp hu with ⟨rfl, -⟩ | ⟨-, hu⟩
    · exact s.ticket_lt t x ht
    · exact s.ticket_lt u y hu
  case ticket_keys =>
    intro u y hu
    rcases OrderedMap.get?_put_eq_some.mp hu with ⟨rfl, rfl⟩ | ⟨-, hu⟩
    · obtain ⟨h, hl, hk⟩ := s.ticket_keys t x ht
      exact ⟨h, hl, by rw [← hk, ← c.split, List.append_assoc]⟩
    · exact s.ticket_keys u y hu
  case grant_done =>
    intro l j g hj hg
    rw [OrderedMap.get?_put, if_neg (s.grant_ne ht hj hg).symm]
    exact s.grant_done l j g hj hg
  case serves =>
    intro k
    refine (s.serves_collected ht c k).mono (fun u => owns_waiting ht taken remaining after u k) ?_
    rintro u (⟨hut, y, hy, hky⟩ | ⟨rfl, hh⟩)
    · exact ⟨y, OrderedMap.get?_put_eq_some.mpr (Or.inr ⟨Ne.symm hut, hy⟩), hky⟩
    · exact ⟨{ x with taken := x.taken ++ taken, remaining },
        OrderedMap.get?_put_eq_some.mpr (Or.inl ⟨rfl, rfl⟩), hh⟩

theorem poll (s : table.Sound) (t : TicketId) : (table.poll t).2.Sound := by
  unfold LockTable.poll
  split
  · exact s
  · rename_i x ht
    have c := Mutexes.collect_spec t (s.remaining_nodup ht) table.mutexes
    simp only
    split
    · rename_i hr
      rw [hr] at c
      obtain ⟨h, hl, -⟩ := s.ticket_keys t x ht
      rw [s.hold_eq ht hl c]
      exact s.poll_granted ht c hl
    · exact s.poll_waiting ht c

/-! ### Departures -/

/-- The owners and the queues after a request has left all keys that it owned or awaited. -/
theorem serves_departed (s : table.Sound) {keys : List Key} (hn : keys.Nodup)
    (hk : ∀ k, table.Owns t k ∨ table.Awaits t k → k ∈ keys) (k : Key) :
    (Mutexes.read (Mutexes.leaveAll t keys table.mutexes) k).Serves
      (fun u => table.Owns u k ∧ u ≠ t) (fun u => table.Awaits u k ∧ u ≠ t) := by
  rw [Mutexes.read_leaveAll t hn]
  split
  · exact (s.serves k).leave t
  · rename_i hnk
    have hne : ∀ u, table.Owns u k ∨ table.Awaits u k → u ≠ t := by
      rintro u hu rfl
      exact hnk (hk k hu)
    exact (s.serves k).mono (fun u => ⟨And.left, fun hu => ⟨hu, hne u (Or.inl hu)⟩⟩)
      (fun u hu => ⟨hu, hne u (Or.inr hu)⟩)

/-- What a request that waits owns and awaits is what it leaves when it is cancelled. -/
theorem mem_leaving (s : table.Sound) (ht : table.tickets.get? t = some x) {k : Key}
    (hk : table.Owns t k ∨ table.Awaits t k) : k ∈ x.taken ++ x.remaining.take 1 := by
  rcases hk with (⟨y, hy, hk⟩ | ⟨l, h, g, hl, hg, he, -⟩) | ⟨y, hy, hk⟩
  · obtain rfl : x = y := Option.some.inj (ht.symm.trans hy)
    exact List.mem_append_left _ hk
  · exact absurd he (s.grant_ne ht hl hg)
  · obtain rfl : x = y := Option.some.inj (ht.symm.trans hy)
    apply List.mem_append_right _
    cases hr : x.remaining with
    | nil => simp [hr] at hk
    | cons j rest => simpa [hr, eq_comm] using hk

/-- A request takes its keys in their order, so none is left twice. -/
theorem leaving_nodup (s : table.Sound) (ht : table.tickets.get? t = some x) :
    (x.taken ++ x.remaining.take 1).Nodup := by
  obtain ⟨h, hl, hk⟩ := s.ticket_keys t x ht
  have hn := Key.nodup_of_pairwise (s.keys_sorted x.lock h hl)
  rw [← hk] at hn
  exact hn.sublist ((List.Sublist.refl _).append (List.take_sublist 1 _))

/-- When a request is cancelled, all others own what they owned. -/
theorem owns_cancelled (s : table.Sound) (ht : table.tickets.get? t = some x) (after : Mutexes)
    (u : TicketId) (k : Key) :
    Owns { table with mutexes := after, tickets := table.tickets.erase t } u k ↔
      table.Owns u k ∧ u ≠ t := by
  constructor
  · rintro (⟨y, hy, hky⟩ | ⟨l, h, g, hl, hg, rfl, hkg⟩)
    · obtain ⟨hut, hy⟩ := OrderedMap.get?_erase_eq_some.mp hy
      exact ⟨Or.inl ⟨y, hy, hky⟩, Ne.symm hut⟩
    · exact ⟨Or.inr ⟨l, h, g, hl, hg, rfl, hkg⟩, s.grant_ne ht hl hg⟩
  · rintro ⟨⟨y, hy, hky⟩ | hg, hut⟩
    · exact Or.inl ⟨y, OrderedMap.get?_erase_eq_some.mpr ⟨Ne.symm hut, hy⟩, hky⟩
    · exact Or.inr hg

theorem cancel (s : table.Sound) (t : TicketId) : (table.cancel t).Sound := by
  unfold LockTable.cancel
  split
  · exact s
  · rename_i x ht
    have hn := s.leaving_nodup ht
    refine ⟨s.locks_sorted, s.tickets_sorted.erase t, s.lock_lt, ?ticket_lt, s.keys_sorted,
      ?ticket_keys, s.grant_keys, s.grant_lt, ?grant_done, s.grant_inj, ?serves⟩
    case ticket_lt =>
      intro u y hu
      exact s.ticket_lt u y (OrderedMap.get?_erase_eq_some.mp hu).2
    case ticket_keys =>
      intro u y hu
      exact s.ticket_keys u y (OrderedMap.get?_erase_eq_some.mp hu).2
    case grant_done =>
      intro l h g hl hg
      rw [OrderedMap.get?_erase, s.grant_done l h g hl hg, ite_self]
    case serves =>
      intro k
      refine (s.serves_departed hn (fun k hk => s.mem_leaving ht hk) k).mono
        (fun u => s.owns_cancelled ht _ u k) ?_
      rintro u ⟨⟨y, hy, hky⟩, hut⟩
      exact ⟨y, OrderedMap.get?_erase_eq_some.mpr ⟨Ne.symm hut, hy⟩, hky⟩

/-- A grant after a lock was put down was there before, and is of another lock. -/
theorem grant_of_put_down {l' : LockId} {h' : KeysLock} {g : Grant}
    (hl : (table.locks.put l { h with held := none }).get? l' = some h')
    (hg : h'.held = some g) : l ≠ l' ∧ table.locks.get? l' = some h' := by
  rcases OrderedMap.get?_put_eq_some.mp hl with ⟨-, rfl⟩ | hl
  · simp at hg
  · exact hl

/-- The request by which a lock is held owns the keys of the grant only, and awaits none. -/
theorem mem_granted (s : table.Sound) {g : Grant} (hl : table.locks.get? l = some h)
    (hg : h.held = some g) {k : Key}
    (hk : table.Owns g.ticket k ∨ table.Awaits g.ticket k) : k ∈ g.keys := by
  rcases hk with (⟨y, hy, -⟩ | ⟨l', h', g', hl', hg', he, hk⟩) | ⟨y, hy, -⟩
  · exact absurd rfl (s.grant_ne hy hl hg)
  · obtain rfl := s.grant_inj l' h' g' l h g hl' hg' hl hg he
    obtain rfl : h = h' := Option.some.inj (hl.symm.trans hl')
    obtain rfl : g = g' := Option.some.inj (hg.symm.trans hg')
    exact hk
  · exact absurd rfl (s.grant_ne hy hl hg)

/-- When a lock is put down, all but the request by which it was held own what they owned. -/
theorem owns_put_down (s : table.Sound) {g : Grant} (hl : table.locks.get? l = some h)
    (hg : h.held = some g) (u : TicketId) (k : Key) :
    Owns { table.giveUp g with locks := table.locks.put l { h with held := none } } u k ↔
      table.Owns u k ∧ u ≠ g.ticket := by
  constructor
  · rintro (⟨y, hy, hky⟩ | ⟨l', h', g', hl', hg', rfl, hkg⟩)
    · exact ⟨Or.inl ⟨y, hy, hky⟩, (s.grant_ne hy hl hg).symm⟩
    · obtain ⟨hne, hl'⟩ := grant_of_put_down hl' hg'
      exact ⟨Or.inr ⟨l', h', g', hl', hg', rfl, hkg⟩,
        fun he => hne (s.grant_inj l h g l' h' g' hl hg hl' hg' he.symm)⟩
  · rintro ⟨hy | ⟨l', h', g', hl', hg', rfl, hkg⟩, hne⟩
    · exact Or.inl hy
    · have hll : l ≠ l' := by
        rintro rfl
        obtain rfl : h = h' := Option.some.inj (hl.symm.trans hl')
        exact hne (congrArg Grant.ticket (Option.some.inj (hg'.symm.trans hg)))
      exact Or.inr ⟨l', h', g', OrderedMap.get?_put_eq_some.mpr (Or.inr ⟨hll, hl'⟩), hg', rfl,
        hkg⟩

/-- The guards of a held lock dropped. -/
theorem put_down (s : table.Sound) {g : Grant} (hl : table.locks.get? l = some h)
    (hg : h.held = some g) :
    Sound { table.giveUp g with locks := table.locks.put l { h with held := none } } := by
  have hn : g.keys.Nodup :=
    s.grant_keys l h g hl hg ▸ Key.nodup_of_pairwise (s.keys_sorted l h hl)
  refine ⟨s.locks_sorted.put _ _, s.tickets_sorted, ?lock_lt, s.ticket_lt, ?keys_sorted,
    ?ticket_keys, ?grant_keys, ?grant_lt, ?grant_done, ?grant_inj, ?serves⟩
  case lock_lt =>
    intro l' h' hl'
    rcases OrderedMap.get?_put_eq_some.mp hl' with ⟨rfl, -⟩ | ⟨-, hl'⟩
    · exact s.lock_lt l h hl
    · exact s.lock_lt l' h' hl'
  case keys_sorted =>
    intro l' h' hl'
    rcases OrderedMap.get?_put_eq_some.mp hl' with ⟨-, rfl⟩ | ⟨-, hl'⟩
    · exact s.keys_sorted l h hl
    · exact s.keys_sorted l' h' hl'
  case ticket_keys =>
    intro u y hu
    exact s.ticket_keys_put hl hu none
  case grant_keys =>
    intro l' h' g' hl' hg'
    exact s.grant_keys l' h' g' (grant_of_put_down hl' hg').2 hg'
  case grant_lt =>
    intro l' h' g' hl' hg'
    exact s.grant_lt l' h' g' (grant_of_put_down hl' hg').2 hg'
  case grant_done =>
    intro l' h' g' hl' hg'
    exact s.grant_done l' h' g' (grant_of_put_down hl' hg').2 hg'
  case grant_inj =>
    intro l₁ h₁ g₁ l₂ h₂ g₂ hl₁ hg₁ hl₂ hg₂
    exact s.grant_inj l₁ h₁ g₁ l₂ h₂ g₂ (grant_of_put_down hl₁ hg₁).2 hg₁
      (grant_of_put_down hl₂ hg₂).2 hg₂
  case serves =>
    intro k
    exact (s.serves_departed hn (fun k hk => s.mem_granted hl hg hk) k).mono
      (fun u => s.owns_put_down hl hg u k) (fun u hu => hu.1)

/-- Pruning is not seen by those who own or await a key. -/
theorem prune (s : table.Sound) (keys : List Key) :
    Sound { table with mutexes := Mutexes.prune keys table.mutexes } where
  __ := s
  serves k := by
    unfold mutex
    rw [Mutexes.read_prune]
    exact s.serves k

/-- A lock that is not held, and for which nobody waits, forgotten. -/
theorem forget (s : table.Sound) (hl : ∀ h, table.locks.get? l = some h → h.held = none)
    (ht : ∀ t x, table.tickets.get? t = some x → x.lock ≠ l) :
    Sound { table with locks := table.locks.erase l } where
  locks_sorted := s.locks_sorted.erase l
  tickets_sorted := s.tickets_sorted
  lock_lt l' h' hl' := s.lock_lt l' h' (OrderedMap.get?_erase_eq_some.mp hl').2
  ticket_lt := s.ticket_lt
  keys_sorted l' h' hl' := s.keys_sorted l' h' (OrderedMap.get?_erase_eq_some.mp hl').2
  ticket_keys t x hx := by
    obtain ⟨h', hl', hk⟩ := s.ticket_keys t x hx
    exact ⟨h', OrderedMap.get?_erase_eq_some.mpr ⟨(ht t x hx).symm, hl'⟩, hk⟩
  grant_keys l' h' g hl' := s.grant_keys l' h' g (OrderedMap.get?_erase_eq_some.mp hl').2
  grant_lt l' h' g hl' := s.grant_lt l' h' g (OrderedMap.get?_erase_eq_some.mp hl').2
  grant_done l' h' g hl' := s.grant_done l' h' g (OrderedMap.get?_erase_eq_some.mp hl').2
  grant_inj l₁ h₁ g₁ l₂ h₂ g₂ hl₁ hg₁ hl₂ hg₂ :=
    s.grant_inj l₁ h₁ g₁ l₂ h₂ g₂ (OrderedMap.get?_erase_eq_some.mp hl₁).2 hg₁
      (OrderedMap.get?_erase_eq_some.mp hl₂).2 hg₂
  serves k := by
    refine (s.serves k).mono (fun t => or_congr Iff.rfl ⟨?_, ?_⟩) (fun t ha => ha)
    · rintro ⟨l', h', g, hl', hg⟩
      exact ⟨l', h', g, (OrderedMap.get?_erase_eq_some.mp hl').2, hg⟩
    · rintro ⟨l', h', g, hl', hg, hr⟩
      refine ⟨l', h', g, OrderedMap.get?_erase_eq_some.mpr ⟨?_, hl'⟩, hg, hr⟩
      rintro rfl
      rw [hl h' hl'] at hg
      cases hg

/-! ### Releases and drops -/

theorem release (s : table.Sound) (l : LockId) : (table.release l).2.Sound := by
  unfold LockTable.release
  split
  · exact s
  · rename_i old hl
    split
    · exact s
    · rename_i g hg
      exact (s.put_down hl hg).prune old.keys

theorem cancel_all (s : table.Sound) (ts : List TicketId) :
    (ts.foldl LockTable.cancel table).Sound := by
  induction ts generalizing table with
  | nil => exact s
  | cons t rest ih => exact ih (s.cancel t)

end Sound

section

variable {table : LockTable}

theorem cancel_locks (t : TicketId) : (table.cancel t).locks = table.locks := by
  unfold cancel
  split <;> rfl

theorem cancel_tickets (t : TicketId) : (table.cancel t).tickets.get? t = none ∧
    ∀ u x, (table.cancel t).tickets.get? u = some x → table.tickets.get? u = some x := by
  unfold cancel
  split
  · exact ⟨‹_›, fun _ _ => id⟩
  · exact ⟨by simp, fun u x hu => (OrderedMap.get?_erase_eq_some.mp hu).2⟩

theorem cancel_all_tickets {ts : List TicketId} {u : TicketId} {x : Ticket}
    (hu : (ts.foldl cancel table).tickets.get? u = some x) :
    u ∉ ts ∧ table.tickets.get? u = some x := by
  induction ts generalizing table with
  | nil => exact ⟨by simp, hu⟩
  | cons t rest ih =>
    obtain ⟨hnot, hx⟩ := ih hu
    refine ⟨?_, (cancel_tickets t).2 u x hx⟩
    rintro (⟨⟩ | ⟨_, hmem⟩)
    · rw [(cancel_tickets u).1] at hx
      cases hx
    · exact hnot hmem

/-- When all acquires of a lock were cancelled, nobody waits for it. -/
theorem lock_ne_of_ticketsOf {l : LockId} {u : TicketId} {x : Ticket}
    (hu : ((table.ticketsOf l).foldl cancel table).tickets.get? u = some x) : x.lock ≠ l := by
  obtain ⟨hnot, hx⟩ := cancel_all_tickets hu
  rintro rfl
  refine hnot (List.mem_map.mpr ⟨(u, x), ?_, rfl⟩)
  exact List.mem_filter.mpr ⟨OrderedMap.mem_entries_of_get? hx, by simp⟩

theorem Sound.discard (s : table.Sound) (l : LockId) : (table.discard l).Sound := by
  have sc := s.cancel_all (table.ticketsOf l)
  have hfree : ∀ t x, ((table.ticketsOf l).foldl LockTable.cancel table).tickets.get? t = some x →
      x.lock ≠ l := fun t x => lock_ne_of_ticketsOf
  unfold LockTable.discard
  generalize (table.ticketsOf l).foldl LockTable.cancel table = cleared at sc hfree ⊢
  simp only
  split
  · exact sc
  · rename_i old hl
    split
    · rename_i g hg
      have sd := ((sc.put_down hl hg).prune old.keys).forget (l := l)
        (fun h hl' => by
          rcases OrderedMap.get?_put_eq_some.mp hl' with ⟨-, rfl⟩ | ⟨hne, -⟩
          · rfl
          · exact absurd rfl hne)
        hfree
      simp only [OrderedMap.erase_put] at sd
      exact sd
    · rename_i hg
      refine (sc.prune old.keys).forget ?_ hfree
      intro h hl'
      obtain rfl : old = h := Option.some.inj (hl.symm.trans hl')
      exact hg

/-- Every action keeps the invariant. -/
theorem Sound.act (s : table.Sound) (a : LockAction) : (table.act a).Sound := by
  cases a with
  | make keys => exact s.make keys
  | request l =>
    simp only [LockTable.act]
    split
    · rename_i hl
      obtain ⟨h, hl⟩ := Option.isSome_iff_exists.mp hl
      exact s.request hl
    · exact s
  | poll t => exact s.poll t
  | cancel t => exact s.cancel t
  | release l => exact s.release l
  | discard l => exact s.discard l

theorem Sound.run (s : table.Sound) (actions : List LockAction) : (table.run actions).Sound := by
  induction actions generalizing table with
  | nil => exact s
  | cons a rest ih => exact ih (s.act a)

end

/-- The invariant holds after every run. -/
theorem sound_run (actions : List LockAction) : (run {} actions).Sound := sound_empty.run actions

end LockTable

end BlobStore
