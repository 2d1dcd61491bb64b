import BlobStore.Proofs.Lock.History

/-!
# What a table remembers

A key gets an entry when an acquire first comes to it. Cancelled acquires leave entries behind, and
a lock that is given back or dropped forgets only entries of its own keys, and of these only the
ones that nobody stands at. What is left over has an heir: whoever stands at a key belongs to
another lock over this key, which will forget the entry in its turn.

## Main definitions

* `LockTable.Wants`: an acquire owns a key, or was started and waits for it
* `LockTable.Covered`: every entry is of a key of a lock that is there

## Main results

* `LockTable.wants_iff_mem_line`: those who want a key are those who stand in the line at it
* `LockTable.Sound.covered_act`: every action keeps all entries covered
* `LockTable.no_leak`: a table has entries for the keys that are wanted, and none for good
-/

namespace BlobStore

/-! ## The keys that have an entry -/

namespace Mutexes

variable {t : TicketId} {j k : Key} {keys : List Key} {ms : Mutexes}

theorem mem_keys_put {m : Mutex} : k ∈ (ms.put j m).keys ↔ k = j ∨ k ∈ ms.keys := by
  rw [OrderedMap.mem_keys_iff, OrderedMap.mem_keys_iff, OrderedMap.get?_put, eq_comm (a := k)]
  split <;> simp [*]

theorem mem_keys_alter {f : Mutex → Mutex} : k ∈ (ms.alter j f).keys ↔ k ∈ ms.keys := by
  rw [OrderedMap.mem_keys_iff, OrderedMap.mem_keys_iff, OrderedMap.get?_alter]
  split <;> simp

/-- Departures neither make entries nor forget them. -/
theorem mem_keys_leaveAll : k ∈ (leaveAll t keys ms).keys ↔ k ∈ ms.keys := by
  unfold leaveAll
  induction keys generalizing ms with
  | nil => rfl
  | cons j rest ih => rw [List.foldl_cons, ih, mem_keys_alter]

/-- Entries are made for the keys that a request comes to. -/
theorem mem_keys_of_collect (h : k ∈ (collect t keys ms).2.2.keys) : k ∈ ms.keys ∨ k ∈ keys := by
  induction keys generalizing ms with
  | nil => exact Or.inl h
  | cons j rest ih =>
    unfold collect at h
    simp only at h
    rw [List.mem_cons]
    split at h
    · rcases ih h with hk | hk
      · rcases mem_keys_put.mp hk with rfl | hk
        · exact Or.inr (Or.inl rfl)
        · exact Or.inl hk
      · exact Or.inr (Or.inr hk)
    · rcases mem_keys_put.mp h with rfl | hk
      · exact Or.inr (Or.inl rfl)
      · exact Or.inl hk

theorem mem_keys_forget :
    k ∈ (forget ms j).keys ↔ k ∈ ms.keys ∧ (k = j → ¬ (read ms k).isIdle) := by
  unfold forget read
  cases hm : ms.get? j with
  | none =>
    refine (and_iff_left_of_imp fun hk he => ?_).symm
    simp [OrderedMap.mem_keys_iff, he, hm] at hk
  | some m =>
    by_cases hi : m.isIdle
    · simp only [hi, if_true, OrderedMap.mem_keys_iff, OrderedMap.get?_erase]
      by_cases he : j = k
      · subst he
        simp [hm, hi]
      · simp [he, Ne.symm he]
    · simp only [hi]
      refine (and_iff_left_of_imp fun hk he => ?_).symm
      subst he
      simpa [hm] using hi

/-- Pruning forgets, of the keys that are given, those that nobody stands at. -/
theorem mem_keys_prune :
    k ∈ (prune keys ms).keys ↔ k ∈ ms.keys ∧ (k ∈ keys → ¬ (read ms k).isIdle) := by
  unfold prune
  induction keys generalizing ms with
  | nil => simp
  | cons j rest ih =>
    rw [List.foldl_cons, ih, mem_keys_forget, read_forget, List.mem_cons]
    tauto

end Mutexes

namespace LockTable

variable {table : LockTable} {t : TicketId} {l : LockId} {k : Key}

/-- After mutexes were pruned, the given keys that have an entry are those somebody stands at. -/
theorem Sound.mem_keys_pruned (s : table.Sound) {keys : List Key} {ms : Mutexes}
    (hm : table.mutexes = Mutexes.prune keys ms) :
    k ∈ table.mutexes.keys ↔ k ∈ ms.keys ∧ (k ∈ keys → ∃ t, t ∈ table.line k) := by
  have hidle : (Mutexes.read ms k).isIdle ↔ table.line k = [] := by
    rw [← Mutexes.read_prune keys ms k, ← hm]
    exact (s.serves k).isIdle_iff_line
  rw [hm, Mutexes.mem_keys_prune, hidle, List.eq_nil_iff_forall_not_mem]
  simp only [not_forall, not_not]

/-- A release forgets the keys of its lock that nobody stands at. -/
theorem Sound.mem_keys_release (s : table.Sound) {h : KeysLock}
    (hl : table.locks.get? l = some h) (hok : (table.release l).1 = .ok ()) :
    k ∈ (table.release l).2.mutexes.keys ↔
      k ∈ table.mutexes.keys ∧ (k ∈ h.keys → ∃ t, t ∈ (table.release l).2.line k) := by
  have sr := s.release l
  unfold LockTable.release at hok sr ⊢
  simp only [hl] at hok sr ⊢
  cases hg : h.held with
  | none => simp [hg] at hok
  | some g =>
    simp only [hg] at sr ⊢
    rw [sr.mem_keys_pruned rfl]
    simp only [giveUp, Mutexes.mem_keys_leaveAll]

theorem mem_keys_cancel : k ∈ (table.cancel t).mutexes.keys ↔ k ∈ table.mutexes.keys := by
  unfold cancel
  split
  · rfl
  · exact Mutexes.mem_keys_leaveAll

theorem mem_keys_cancel_all (ts : List TicketId) :
    k ∈ (ts.foldl cancel table).mutexes.keys ↔ k ∈ table.mutexes.keys := by
  induction ts generalizing table with
  | nil => rfl
  | cons t rest ih => rw [List.foldl_cons, ih, mem_keys_cancel]

/-- A lock dropped forgets its keys that nobody stands at, as a release does. -/
theorem Sound.mem_keys_discard (s : table.Sound) {h : KeysLock}
    (hl : table.locks.get? l = some h) :
    k ∈ (table.discard l).mutexes.keys ↔
      k ∈ table.mutexes.keys ∧ (k ∈ h.keys → ∃ t, t ∈ (table.discard l).line k) := by
  have sd := s.discard l
  have hcancel : k ∈ table.mutexes.keys ↔
      k ∈ ((table.ticketsOf l).foldl LockTable.cancel table).mutexes.keys :=
    (mem_keys_cancel_all _).symm
  rw [← cancel_all_locks table (table.ticketsOf l)] at hl
  rw [hcancel]
  unfold LockTable.discard at sd ⊢
  generalize (table.ticketsOf l).foldl LockTable.cancel table = cleared at hl sd ⊢
  simp only [hl] at sd ⊢
  rw [sd.mem_keys_pruned rfl]
  cases hg : h.held with
  | none => rfl
  | some g => simp only [giveUp, Mutexes.mem_keys_leaveAll]

/-! ## Who wants a key -/

/-- An acquire that was started in a run owns a key after it, or waits for it. -/
def Wants (actions : List LockAction) (t : TicketId) (k : Key) : Prop :=
  (run {} actions).Owns t k ∨
    ((run {} actions).Awaits t k ∧ ∃ keys, (t, keys) ∈ requested actions)

/-- Those who want a key are those who stand in the line at it. -/
theorem wants_iff_mem_line (actions : List LockAction) {t : TicketId} {k : Key} :
    Wants actions t k ↔ t ∈ (run {} actions).line k := by
  constructor
  · rintro (ho | ⟨ha, keys, hr⟩)
    · exact (sound_run actions).mem_line_of_owns ho
    · exact awaits_of_requested actions hr ha
  · intro h
    exact ((sound_run actions).mem_line h).imp_right
      fun ha => ⟨ha, requested_of_mem_line actions h⟩

/-! ## Every entry has a lock -/

/-- Every key that has an entry is a key of a lock that is there. -/
def Covered (table : LockTable) : Prop :=
  ∀ k, k ∈ table.mutexes.keys → ∃ l h, table.locks.get? l = some h ∧ k ∈ h.keys

/-- Whoever stands at a key does so for a lock that covers it. -/
theorem Sound.lock_of_mem_line (s : table.Sound) (h : t ∈ table.line k) :
    ∃ l h, table.locks.get? l = some h ∧ k ∈ h.keys := by
  have hticket : ∀ x, table.tickets.get? t = some x → k ∈ x.taken ++ x.remaining →
      ∃ l h, table.locks.get? l = some h ∧ k ∈ h.keys := by
    intro x hx hk
    obtain ⟨h, hl, hkeys⟩ := s.ticket_keys t x hx
    exact ⟨x.lock, h, hl, hkeys ▸ hk⟩
  rcases s.mem_line h with (⟨x, hx, hk⟩ | ⟨l, h, g, hl, hg, -, hk⟩) | ⟨x, hx, hk⟩
  · exact hticket x hx (List.mem_append_left _ hk)
  · exact ⟨l, h, hl, s.grant_keys l h g hl hg ▸ hk⟩
  · exact hticket x hx (List.mem_append_right _ (List.mem_of_head? hk))

/-- When the keys of one lock were pruned, all entries are still covered, even if this lock is gone:
the keys of it that have an entry have an heir. -/
theorem Sound.covered_pruned {after : LockTable} (s : after.Sound) (hc : table.Covered)
    {h : KeysLock} (hl : table.locks.get? l = some h) (hkeep : Keeps l table after)
    (hkeys : ∀ k, k ∈ after.mutexes.keys ↔
      k ∈ table.mutexes.keys ∧ (k ∈ h.keys → ∃ t, t ∈ after.line k)) : after.Covered := by
  intro k hk
  obtain ⟨hold, hline⟩ := (hkeys k).mp hk
  by_cases hkh : k ∈ h.keys
  · obtain ⟨t, ht⟩ := hline hkh
    exact s.lock_of_mem_line ht
  · obtain ⟨l', h', hl', hk'⟩ := hc k hold
    have hne : l' ≠ l := by
      rintro rfl
      exact hkh (Option.some.inj (hl.symm.trans hl') ▸ hk')
    exact ⟨l', h', (hkeep.locks l' hne).trans hl', hk'⟩

/-- A poll makes entries for keys of its own lock. -/
theorem mem_keys_of_poll (s : table.Sound) {x : Ticket} (ht : table.tickets.get? t = some x)
    (h : k ∈ (table.poll t).2.mutexes.keys) : k ∈ table.mutexes.keys ∨ k ∈ x.remaining := by
  obtain ⟨j, hl, -⟩ := s.ticket_keys t x ht
  have c := Mutexes.collect_spec t (s.remaining_nodup ht) table.mutexes
  unfold poll at h
  simp only [ht] at h
  apply Mutexes.mem_keys_of_collect (t := t)
  split at h
  · rename_i hr
    rw [hr] at c
    rwa [s.hold_eq ht hl c] at h
  · exact h

/-- A poll leaves every lock its keys. -/
theorem Advances.keys_eq {x : Ticket} {taken remaining : List Key} {after : LockTable}
    (v : Advances t x taken remaining table after) {h : KeysLock}
    (hl : table.locks.get? l = some h) :
    ∃ h', after.locks.get? l = some h' ∧ h'.keys = h.keys := by
  by_cases hr : remaining = []
  · obtain ⟨j, hj, hlocks⟩ := v.granted hr
    rw [hlocks, OrderedMap.get?_put]
    split
    · rename_i he
      obtain rfl : j = h := Option.some.inj (hj.symm.trans (he ▸ hl))
      exact ⟨_, rfl, rfl⟩
    · exact ⟨h, hl, rfl⟩
  · exact ⟨h, v.waiting hr ▸ hl, rfl⟩

theorem Sound.covered_poll (s : table.Sound) (hc : table.Covered) (t : TicketId) :
    (table.poll t).2.Covered := by
  cases ht : table.tickets.get? t with
  | none => simpa [LockTable.poll, ht] using hc
  | some x =>
    obtain ⟨h, hl, hkeys⟩ := s.ticket_keys t x ht
    obtain ⟨taken, remaining, v, -⟩ := s.advances ht
    intro k hk
    obtain ⟨l', h', hl', hk'⟩ : ∃ l h, table.locks.get? l = some h ∧ k ∈ h.keys := by
      rcases mem_keys_of_poll s ht hk with hk | hk
      · exact hc k hk
      · exact ⟨x.lock, h, hl, hkeys ▸ List.mem_append_right _ hk⟩
    obtain ⟨h'', hl'', he⟩ := v.keys_eq hl'
    exact ⟨l', h'', hl'', he ▸ hk'⟩

/-- A release gives a held lock back, or does nothing. -/
theorem release_cases (table : LockTable) (l : LockId) :
    (∃ h, table.locks.get? l = some h ∧ (table.release l).1 = .ok ()) ∨
      (table.release l).2 = table := by
  unfold release
  split
  · exact Or.inr rfl
  · rename_i h hl
    split
    · exact Or.inr rfl
    · exact Or.inl ⟨h, hl, rfl⟩

/-- Every action keeps all entries covered. -/
theorem Sound.covered_act (s : table.Sound) (hc : table.Covered) (a : LockAction) :
    (table.act a).Covered := by
  cases a with
  | make keys =>
    intro k hk
    obtain ⟨l, h, hl, hkh⟩ := hc k hk
    exact ⟨l, h, s.get?_make_of_some keys hl, hkh⟩
  | request l =>
    simp only [LockTable.act]
    split <;> exact hc
  | poll t => exact s.covered_poll hc t
  | cancel t =>
    intro k hk
    simp only [LockTable.act, cancel_locks]
    exact hc k (mem_keys_cancel.mp hk)
  | release l =>
    simp only [LockTable.act]
    rcases release_cases table l with ⟨h, hl, hok⟩ | hsame
    · exact (s.release l).covered_pruned hc hl (keeps_release table l)
        fun k => s.mem_keys_release hl hok
    · exact hsame.symm ▸ hc
  | discard l =>
    simp only [LockTable.act]
    cases hl : table.locks.get? l with
    | some h =>
      exact (s.discard l).covered_pruned hc hl (s.keeps_discard l) fun k => s.mem_keys_discard hl
    | none =>
      unfold LockTable.discard
      rw [← cancel_all_locks table (table.ticketsOf l)] at hl
      simp only [hl]
      intro k hk
      rw [cancel_all_locks]
      exact hc k ((mem_keys_cancel_all _).mp hk)

theorem covered_run (actions : List LockAction) : (run {} actions).Covered := by
  induction actions using run_induction with
  | nil =>
    intro k hk
    simp [run, OrderedMap.mem_keys_iff] at hk
  | concat actions a s ih =>
    rw [run_concat]
    exact s.covered_act ih a

/-! ## Runs -/

theorem mem_keysOf_iff : k ∈ table.keysOf l ↔ ∃ h, table.locks.get? l = some h ∧ k ∈ h.keys := by
  unfold keysOf
  cases table.locks.get? l <;> simp

/-- Locks that are left when some were dropped, in any order, are others. -/
theorem get?_run_discard {order : List LockId} {h : KeysLock}
    (hl : (table.run (order.map .discard)).locks.get? l = some h) :
    l ∉ order ∧ table.locks.get? l = some h := by
  induction order generalizing table with
  | nil => exact ⟨List.not_mem_nil, hl⟩
  | cons l' rest ih =>
    have hl : ((table.discard l').run (rest.map .discard)).locks.get? l = some h := hl
    obtain ⟨hrest, hl⟩ := ih hl
    rw [get?_discard] at hl
    split at hl
    · cases hl
    · rename_i hne
      exact ⟨by simp [Ne.symm hne, hrest], hl⟩

theorem Covered.isEmpty (hc : table.Covered) (hno : ∀ l, table.locks.get? l = none) :
    table.isEmpty := by
  have hnone : ∀ k, k ∉ table.mutexes.keys := by
    intro k hk
    obtain ⟨l, h, hl, -⟩ := hc k hk
    rw [hno l] at hl
    cases hl
  unfold LockTable.isEmpty OrderedMap.isEmpty
  rw [List.isEmpty_iff]
  exact List.map_eq_nil_iff.mp (List.eq_nil_iff_forall_not_mem.mpr hnone)

/-- **No leak.** After every run each key that is wanted has an entry, and each entry is of a key of
a lock that is there. A lock that is given back leaves, of its keys, exactly those that another
acquire wants. When all locks that are there are dropped, in any order, nothing is left. -/
theorem no_leak (actions : List LockAction) :
    (∀ t k, Wants actions t k → k ∈ (run {} actions).mutexes.keys) ∧
    (∀ k, k ∈ (run {} actions).mutexes.keys →
      ∃ l h, (run {} actions).locks.get? l = some h ∧ k ∈ h.keys) ∧
    (∀ l, ((run {} actions).release l).1 = .ok () → ∀ k, k ∈ (run {} actions).keysOf l →
      (k ∈ (run {} (actions ++ [.release l])).mutexes.keys ↔
        ∃ t, (run {} actions).holder l ≠ some t ∧ Wants (actions ++ [.release l]) t k)) ∧
    (∀ order : List LockId, (∀ l, l ∈ (run {} actions).locks.keys → l ∈ order) →
      (run {} (actions ++ order.map .discard)).isEmpty) := by
  have s := sound_run actions
  refine ⟨fun t k hw => mem_keys_of_mem_line ((wants_iff_mem_line actions).mp hw),
    covered_run actions, ?released, ?dropped⟩
  case released =>
    intro l hok k hk
    obtain ⟨h, hl, hkh⟩ := mem_keysOf_iff.mp hk
    simp only [wants_iff_mem_line, run_concat, LockTable.act]
    constructor
    · intro hmem
      obtain ⟨t, ht⟩ := ((s.mem_keys_release hl hok).mp hmem).2 hkh
      refine ⟨t, ?_, ht⟩
      rw [(s.departs_release l).line, List.mem_filter] at ht
      simpa using ht.2
    · rintro ⟨t, -, ht⟩
      exact mem_keys_of_mem_line ht
  case dropped =>
    intro order hall
    apply (covered_run _).isEmpty
    intro l
    refine Option.eq_none_iff_forall_ne_some.mpr fun h hl => ?_
    rw [run, List.foldl_append] at hl
    obtain ⟨hnot, hl⟩ := get?_run_discard hl
    exact hnot (hall l ((OrderedMap.mem_keys_iff _ l).mpr (Option.isSome_iff_exists.mpr ⟨h, hl⟩)))

/-- Two locks over a common key. The first is held, the second waits for the key, and an acquire
that waits for the first is cancelled at a key that it has reached. -/
def sharedRun : List LockAction :=
  [.make [⟨["a"]⟩, ⟨["b"]⟩], .make [⟨["b"]⟩, ⟨["c"]⟩], .request 0, .poll 2, .request 1, .poll 3,
    .request 0, .poll 4, .cancel 4]

theorem no_leak_on_sharedRun :
    ⟨["b"]⟩ ∈ (run {} sharedRun).mutexes.keys ∧
      (∃ t, (run {} sharedRun).holder 0 ≠ some t ∧
        Wants (sharedRun ++ [.release 0]) t ⟨["b"]⟩) ∧
      (run {} (sharedRun ++ [.discard 1, .discard 0])).isEmpty := by
  have hwant : Wants sharedRun 3 ⟨["b"]⟩ :=
    (wants_iff_mem_line sharedRun).mpr (by decide +kernel)
  have hkey : ⟨["b"]⟩ ∈ (run {} sharedRun).keysOf 0 := by decide +kernel
  have hafter : ⟨["b"]⟩ ∈ (run {} (sharedRun ++ [.release 0])).mutexes.keys := by decide +kernel
  have hleft : ∀ l, l ∈ (run {} sharedRun).locks.keys → l ∈ [1, 0] := by decide +kernel
  obtain ⟨howned, -, hreleased, hdropped⟩ := no_leak sharedRun
  exact ⟨howned 3 _ hwant, (hreleased 0 (by decide +kernel) _ hkey).mp hafter,
    hdropped [1, 0] hleft⟩

end LockTable

end BlobStore
