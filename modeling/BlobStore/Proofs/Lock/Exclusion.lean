import BlobStore.Proofs.Lock.Invariant

/-!
# Mutual exclusion

At most one guard on a key exists at a time, so locks over a common key are not held together. The
mutex of a key is forgotten only while the table alone refers to it, so one who comes to the key
later never finds a second mutex beside one that is still in use.

## Main definitions

* `LockTable.guards`: the guards on the mutex of a key
* `LockTable.strongCount`: how often the mutex of a key is referred to

## Main results

* `LockTable.Sound.guards_length_le_one`: a key has at most one guard
* `LockTable.Sound.isIdle_iff_strongCount`: what pruning forgets is referred to by the table alone
* `LockTable.mutual_exclusion`: both hold after every run, and locks over a common key exclude
  each other
-/

namespace BlobStore

namespace LockTable

/-! ## Guards and references -/

/-- The requests that hold a guard on the mutex of a key: those that have collected the key while
they wait, and those by which a lock over the key is held. -/
def guards (table : LockTable) (k : Key) : List TicketId :=
  (table.tickets.entries.filterMap fun (t, x) => if k ∈ x.taken then some t else none) ++
    table.locks.entries.filterMap fun (_, h) =>
      h.held.bind fun g => if k ∈ g.keys then some g.ticket else none

/-- The requests that wait for the mutex of a key: the key is their next, and they queue for it or
were handed it without having been polled. -/
def pending (table : LockTable) (k : Key) : List TicketId :=
  table.tickets.entries.filterMap fun (t, x) =>
    if x.remaining.head? = some k ∧ ((table.mutex k).owner = some t ∨ t ∈ (table.mutex k).queue)
    then some t else none

/-- The references to the mutex of a key that is in the table: one by the table, one by every guard,
and one by everybody who waits for it. -/
def strongCount (table : LockTable) (k : Key) : Nat :=
  1 + (table.guards k).length + (table.pending k).length

namespace Sound

variable {table : LockTable}

theorem mem_guards_iff (s : table.Sound) {t : TicketId} {k : Key} :
    t ∈ table.guards k ↔ table.Owns t k := by
  unfold guards Owns
  rw [List.mem_append, List.mem_filterMap, List.mem_filterMap]
  refine or_congr ⟨?_, ?_⟩ ⟨?_, ?_⟩
  · rintro ⟨⟨u, x⟩, hx, hu⟩
    obtain ⟨hk, rfl⟩ : k ∈ x.taken ∧ u = t := by simpa using hu
    exact ⟨x, s.tickets_sorted.mem_entries_iff.mp hx, hk⟩
  · rintro ⟨x, hx, hk⟩
    exact ⟨(t, x), s.tickets_sorted.mem_entries_iff.mpr hx, by simp [hk]⟩
  · rintro ⟨⟨l, h⟩, hl, hk⟩
    obtain ⟨g, hg, hk⟩ := Option.bind_eq_some_iff.mp hk
    obtain ⟨hk, he⟩ : k ∈ g.keys ∧ g.ticket = t := by simpa using hk
    exact ⟨l, h, g, s.locks_sorted.mem_entries_iff.mp hl, hg, he, hk⟩
  · rintro ⟨l, h, g, hl, hg, he, hk⟩
    exact ⟨(l, h), s.locks_sorted.mem_entries_iff.mpr hl, by simp [hg, hk, he]⟩

theorem mem_pending_iff (s : table.Sound) {t : TicketId} {k : Key} :
    t ∈ table.pending k ↔
      table.Awaits t k ∧ ((table.mutex k).owner = some t ∨ t ∈ (table.mutex k).queue) := by
  unfold pending Awaits
  rw [List.mem_filterMap]
  constructor
  · rintro ⟨⟨u, x⟩, hx, hu⟩
    obtain ⟨⟨hk, hm⟩, rfl⟩ : (x.remaining.head? = some k ∧
      ((table.mutex k).owner = some u ∨ u ∈ (table.mutex k).queue)) ∧ u = t := by simpa using hu
    exact ⟨⟨x, s.tickets_sorted.mem_entries_iff.mp hx, hk⟩, hm⟩
  · rintro ⟨⟨x, hx, hk⟩, hm⟩
    exact ⟨(t, x), s.tickets_sorted.mem_entries_iff.mpr hx, by simp [hk, hm]⟩

/-- No request holds two guards on one key. -/
theorem guards_nodup (s : table.Sound) (k : Key) : (table.guards k).Nodup := by
  have htickets := List.pairwise_map.mp s.tickets_sorted
  have hlocks := List.pairwise_map.mp s.locks_sorted
  refine List.nodup_append.mpr ⟨?_, ?_, ?_⟩
  · apply List.pairwise_filterMap.mpr
    apply htickets.imp
    rintro ⟨t, x⟩ ⟨t', x'⟩ hlt u hu u' hu'
    obtain ⟨-, rfl⟩ : k ∈ x.taken ∧ t = u := by simpa using hu
    obtain ⟨-, rfl⟩ : k ∈ x'.taken ∧ t' = u' := by simpa using hu'
    exact Nat.ne_of_lt hlt
  · apply List.pairwise_filterMap.mpr
    apply hlocks.imp_of_mem
    rintro ⟨l, h⟩ ⟨l', h'⟩ hm hm' hlt u hu u' hu' rfl
    obtain ⟨g, hg, hu⟩ := Option.bind_eq_some_iff.mp hu
    obtain ⟨g', hg', hu'⟩ := Option.bind_eq_some_iff.mp hu'
    obtain ⟨-, he⟩ : k ∈ g.keys ∧ g.ticket = u := by simpa using hu
    obtain ⟨-, he'⟩ : k ∈ g'.keys ∧ g'.ticket = u := by simpa using hu'
    exact Nat.ne_of_lt hlt (s.grant_inj l h g l' h' g' (s.locks_sorted.mem_entries_iff.mp hm) hg
      (s.locks_sorted.mem_entries_iff.mp hm') hg' (he.trans he'.symm))
  · intro t ht u hu
    obtain ⟨⟨t', x⟩, hx, ht⟩ := List.mem_filterMap.mp ht
    obtain ⟨⟨l, h⟩, hl, hu⟩ := List.mem_filterMap.mp hu
    obtain ⟨g, hg, hu⟩ := Option.bind_eq_some_iff.mp hu
    obtain ⟨-, rfl⟩ : k ∈ x.taken ∧ t' = t := by simpa using ht
    obtain ⟨-, rfl⟩ : k ∈ g.keys ∧ g.ticket = u := by simpa using hu
    rintro rfl
    have hx := s.tickets_sorted.mem_entries_iff.mp hx
    rw [s.grant_done l h g (s.locks_sorted.mem_entries_iff.mp hl) hg] at hx
    cases hx

/-- A key is owned by at most one acquire, with one guard. -/
theorem guards_length_le_one (s : table.Sound) (k : Key) : (table.guards k).length ≤ 1 := by
  have hn := s.guards_nodup k
  have heq : ∀ t u, t ∈ table.guards k → u ∈ table.guards k → t = u := by
    intro t u ht hu
    exact (s.serves k).owner_unique (s.mem_guards_iff.mp ht) (s.mem_guards_iff.mp hu)
  match hg : table.guards k with
  | [] => simp
  | [_] => simp
  | t :: u :: rest =>
    rw [hg] at hn heq
    exact absurd (heq t u (by simp) (by simp)) (List.ne_of_not_mem_cons (List.nodup_cons.mp hn).1)

/-- A held lock owns all of its keys. -/
theorem owns_of_isHeld (s : table.Sound) {l : LockId} {h : KeysLock}
    (hl : table.locks.get? l = some h) (hh : h.isHeld) :
    ∃ g, h.held = some g ∧ ∀ k, k ∈ h.keys → table.Owns g.ticket k := by
  obtain ⟨g, hg⟩ := Option.isSome_iff_exists.mp hh
  refine ⟨g, hg, fun k hk => Or.inr ⟨l, h, g, hl, hg, rfl, ?_⟩⟩
  rw [s.grant_keys l h g hl hg]
  exact hk

/-- Two locks over a common key are not held together. -/
theorem not_both_held (s : table.Sound) {l l' : LockId} {k : Key} (hne : l ≠ l')
    (hk : k ∈ table.keysOf l) (hk' : k ∈ table.keysOf l') :
    ¬ (table.isHeld l ∧ table.isHeld l') := by
  unfold keysOf at hk hk'
  unfold isHeld
  cases hl : table.locks.get? l with
  | none => simp
  | some h =>
    cases hl' : table.locks.get? l' with
    | none => simp
    | some h' =>
      rw [hl] at hk
      rw [hl'] at hk'
      rintro ⟨hh, hh'⟩
      obtain ⟨g, hg, ho⟩ := s.owns_of_isHeld hl hh
      obtain ⟨g', hg', ho'⟩ := s.owns_of_isHeld hl' hh'
      have ht : g.ticket = g'.ticket := (s.serves k).owner_unique (ho k hk) (ho' k hk')
      exact hne (s.grant_inj l h g l' h' g' hl hg hl' hg' ht)

/-- Nobody owns a mutex or queues for it exactly if the table alone refers to it: this is what
pruning asks. -/
theorem isIdle_iff_strongCount (s : table.Sound) (k : Key) :
    (table.mutex k).isIdle ↔ table.strongCount k = 1 := by
  have hs := s.serves k
  constructor
  · intro hi
    have hm := Mutex.isIdle_iff.mp hi
    have hg : table.guards k = [] := by
      apply List.eq_nil_iff_forall_not_mem.mpr
      intro t ht
      have ho := hs.owned t (s.mem_guards_iff.mp ht)
      simp [hm] at ho
    have hp : table.pending k = [] := by
      apply List.eq_nil_iff_forall_not_mem.mpr
      intro t ht
      have ho := (s.mem_pending_iff.mp ht).2
      simp [hm] at ho
    simp [strongCount, hg, hp]
  · intro hc
    have hg : table.guards k = [] :=
      List.length_eq_zero_iff.mp (by unfold strongCount at hc; omega)
    have hp : table.pending k = [] :=
      List.length_eq_zero_iff.mp (by unfold strongCount at hc; omega)
    have hnone : (table.mutex k).owner = none := by
      apply Option.eq_none_iff_forall_ne_some.mpr
      intro t ht
      rcases hs.owner t ht with ho | ha
      · have := s.mem_guards_iff.mpr ho
        simp [hg] at this
      · have := s.mem_pending_iff.mpr ⟨ha, Or.inl ht⟩
        simp [hp] at this
    simp [Mutex.isIdle, hnone, hs.free hnone]

end Sound

/-! ## Runs -/

/-- **Mutual exclusion.** After every run a key has at most one guard, two locks over a common key
are not held together, and a mutex that the table has is forgotten by pruning exactly if nothing
else refers to it. -/
theorem mutual_exclusion (actions : List LockAction) :
    (∀ k, ((run {} actions).guards k).length ≤ 1) ∧
    (∀ l l' k, l ≠ l' → k ∈ (run {} actions).keysOf l → k ∈ (run {} actions).keysOf l' →
      ¬ ((run {} actions).isHeld l ∧ (run {} actions).isHeld l')) ∧
    (∀ k, k ∈ (run {} actions).mutexes.keys →
      (((Mutexes.forget (run {} actions).mutexes k).get? k = none) ↔
        (run {} actions).strongCount k = 1)) := by
  have s := sound_run actions
  refine ⟨s.guards_length_le_one, fun l l' k hne hk hk' => s.not_both_held hne hk hk', ?_⟩
  intro k hk
  rw [← s.isIdle_iff_strongCount k]
  obtain ⟨m, hm⟩ := Option.isSome_iff_exists.mp ((OrderedMap.mem_keys_iff _ k).mp hk)
  have hread : (run {} actions).mutex k = m := by simp [mutex, Mutexes.read, hm]
  rw [hread]
  unfold Mutexes.forget
  rw [hm]
  by_cases hi : m.isIdle
  · simp [hi]
  · simp [hi, hm]

/-- Two locks over a common key: the first is held and given back, and comes to wait for the key
again while the second holds it. -/
def sampleRun : List LockAction :=
  [.make [⟨["a"]⟩, ⟨["b"]⟩], .make [⟨["b"]⟩, ⟨["c"]⟩], .request 0, .poll 2, .request 1, .poll 3,
    .release 0, .request 0, .poll 4, .poll 3]

theorem mutual_exclusion_on_sampleRun :
    ⟨["b"]⟩ ∈ (run {} sampleRun).keysOf 0 ∧ ⟨["b"]⟩ ∈ (run {} sampleRun).keysOf 1 ∧
      (run {} sampleRun).isHeld 1 ∧ ¬ (run {} sampleRun).isHeld 0 := by
  have hfirst : ⟨["b"]⟩ ∈ (run {} sampleRun).keysOf 0 := by decide +kernel
  have hsecond : ⟨["b"]⟩ ∈ (run {} sampleRun).keysOf 1 := by decide +kernel
  have hheld : (run {} sampleRun).isHeld 1 := by decide +kernel
  have hnot := (mutual_exclusion sampleRun).2.1 0 1 _ (by decide) hfirst hsecond
  exact ⟨hfirst, hsecond, hheld, fun h => hnot ⟨h, hheld⟩⟩

end LockTable

end BlobStore
