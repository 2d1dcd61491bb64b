import BlobStore.Proofs.Lock.Invariant

/-!
# What an action on one lock leaves alone

An action on a lock, or on a request for it, does not touch the other locks and the requests for
them. So whoever has a lock of its own can follow it through the actions of everybody else.

## Main definitions

* `LockTable.Keeps`: two tables agree on all locks but one

## Main results

* `LockTable.keeps_make`, `LockTable.Sound.keeps_request`, `LockTable.keeps_poll`,
  `LockTable.keeps_cancel`, `LockTable.keeps_release`, `LockTable.keeps_discard`: what each action
  leaves alone
* `LockTable.Sound.poll_cases`: what a poll does to its own lock
-/

namespace BlobStore

namespace LockTable

/-- All locks but `l` are as before, and so are the requests for them; no number that was given out
is free again. -/
structure Keeps (l : LockId) (before after : LockTable) : Prop where
  fresh : before.fresh ≤ after.fresh
  locks : ∀ l', l' ≠ l → after.locks.get? l' = before.locks.get? l'
  tickets : ∀ t x, x.lock ≠ l → before.tickets.get? t = some x → after.tickets.get? t = some x

variable {table : LockTable} {l : LockId} {t : TicketId} {x : Ticket}

theorem Keeps.refl (l : LockId) (table : LockTable) : Keeps l table table :=
  ⟨Nat.le_refl _, fun _ _ => rfl, fun _ _ _ ht => ht⟩

theorem Keeps.trans {a b c : LockTable} (hab : Keeps l a b) (hbc : Keeps l b c) : Keeps l a c where
  fresh := Nat.le_trans hab.fresh hbc.fresh
  locks l' hl := (hbc.locks l' hl).trans (hab.locks l' hl)
  tickets t x hl ht := hbc.tickets t x hl (hab.tickets t x hl ht)

/-! ## The life of a lock -/

theorem get?_make (table : LockTable) (keys : List Key) :
    (table.make keys).2.locks.get? table.fresh = some ⟨Key.ordered keys, none⟩ := by
  simp [make]

theorem keeps_make (table : LockTable) (keys : List Key) :
    Keeps table.fresh table (table.make keys).2 where
  fresh := Nat.le_succ _
  locks l' hl := by simp [make, Ne.symm hl]
  tickets _ _ _ ht := ht

/-- What follows is put at one lock, and the requests are the same. -/
theorem keeps_put {after : LockTable} {h : KeysLock}
    (hl : after.locks = table.locks.put l h) (ht : after.tickets = table.tickets)
    (hf : after.fresh = table.fresh) : Keeps l table after where
  fresh := Nat.le_of_eq hf.symm
  locks l' hne := by rw [hl, OrderedMap.get?_put, if_neg (Ne.symm hne)]
  tickets t x _ hx := ht ▸ hx

theorem keeps_release (table : LockTable) (l : LockId) : Keeps l table (table.release l).2 := by
  unfold release
  split
  · exact Keeps.refl l table
  · split
    · exact Keeps.refl l table
    · exact keeps_put rfl rfl rfl

theorem keeps_cancel (table : LockTable) (ht : ∀ x, table.tickets.get? t = some x → x.lock = l) :
    Keeps l table (table.cancel t) where
  fresh := by
    unfold cancel
    split <;> exact Nat.le_refl _
  locks l' _ := by rw [cancel_locks]
  tickets u y hy hu := by
    unfold cancel
    split
    · exact hu
    · rename_i x hx
      refine OrderedMap.get?_erase_eq_some.mpr ⟨?_, hu⟩
      rintro rfl
      exact hy (ht y hu)

theorem keeps_cancel_all {ts : List TicketId}
    (ht : ∀ t ∈ ts, ∀ x, table.tickets.get? t = some x → x.lock = l) :
    Keeps l table (ts.foldl cancel table) := by
  induction ts generalizing table with
  | nil => exact Keeps.refl l table
  | cons t rest ih =>
    refine (keeps_cancel table (ht t List.mem_cons_self)).trans (ih ?_)
    intro u hu x hx
    exact ht u (List.mem_cons_of_mem t hu) x ((cancel_tickets t).2 u x hx)

/-- A lock dropped takes its own requests with it, and no others. -/
theorem Sound.keeps_discard (s : table.Sound) (l : LockId) : Keeps l table (table.discard l) := by
  have hown : ∀ t ∈ table.ticketsOf l, ∀ x, table.tickets.get? t = some x → x.lock = l := by
    intro t ht x hx
    obtain ⟨⟨u, y⟩, hu, rfl⟩ := List.mem_map.mp ht
    obtain ⟨hm, hl⟩ := List.mem_filter.mp hu
    obtain rfl : y = x := Option.some.inj ((s.tickets_sorted.mem_entries_iff.mp hm).symm.trans hx)
    exact of_decide_eq_true hl
  apply (keeps_cancel_all hown).trans
  unfold LockTable.discard
  generalize (table.ticketsOf l).foldl LockTable.cancel table = cleared
  simp only
  split
  · exact Keeps.refl l cleared
  · split
    · exact ⟨Nat.le_refl _, fun l' hl => by simp [giveUp, Ne.symm hl], fun _ _ _ ht => ht⟩
    · exact ⟨Nat.le_refl _, fun l' hl => by simp [Ne.symm hl], fun _ _ _ ht => ht⟩

/-! ## The life of a request -/

theorem get?_request (table : LockTable) (l : LockId) :
    (table.request l).2.tickets.get? table.fresh = some ⟨l, [], table.keysOf l⟩ := by
  simp [request]

theorem Sound.keeps_request (s : table.Sound) (l : LockId) :
    Keeps l table (table.request l).2 where
  fresh := Nat.le_succ _
  locks _ _ := rfl
  tickets _ _ _ ht := s.get?_request_of_some l ht

/-- A poll grants the lock, over all of its keys, or leaves its request waiting. -/
theorem Sound.poll_cases (s : table.Sound) (ht : table.tickets.get? t = some x) :
    Keeps x.lock table (table.poll t).2 ∧
      ((∃ h, table.locks.get? x.lock = some h ∧ (table.poll t).1 = true ∧
          (table.poll t).2.locks.get? x.lock = some { h with held := some ⟨t, h.keys⟩ }) ∨
        ((table.poll t).1 = false ∧ (table.poll t).2.locks = table.locks ∧
          ∃ y, (table.poll t).2.tickets.get? t = some y ∧ y.lock = x.lock)) := by
  obtain ⟨h, hl, hk⟩ := s.ticket_keys t x ht
  have c := Mutexes.collect_spec t (s.remaining_nodup ht) table.mutexes
  have hne : ∀ u y, y.lock ≠ x.lock → table.tickets.get? u = some y → t ≠ u := by
    rintro u y hy hu rfl
    exact hy (congrArg Ticket.lock (Option.some.inj (hu.symm.trans ht)))
  unfold LockTable.poll
  simp only [ht]
  split
  · rename_i hr
    rw [hr] at c
    have htaken : x.taken ++ (Mutexes.collect t x.remaining table.mutexes).1 = h.keys := by
      rw [← hk]
      exact congrArg (x.taken ++ ·) (by simpa using c.split)
    rw [s.hold_eq ht hl c, htaken]
    refine ⟨⟨Nat.le_refl _, ?_, ?_⟩, Or.inl ⟨h, hl, rfl, ?_⟩⟩
    · intro l' hl'
      rw [OrderedMap.get?_put, if_neg (Ne.symm hl')]
    · intro u y hy hu
      exact OrderedMap.get?_erase_eq_some.mpr ⟨hne u y hy hu, hu⟩
    · simp
  · refine ⟨⟨Nat.le_refl _, fun _ _ => rfl, ?_⟩, Or.inr ⟨rfl, rfl, ?_⟩⟩
    · intro u y hy hu
      exact OrderedMap.get?_put_eq_some.mpr (Or.inr ⟨hne u y hy hu, hu⟩)
    · exact ⟨_, OrderedMap.get?_put_eq_some.mpr (Or.inl ⟨rfl, rfl⟩), rfl⟩

end LockTable

end BlobStore
