import BlobStore.Proofs.Lock.Frame

/-!
# The line at a key

Those at a mutex stand in one line: its owner first, and the queue behind the owner. Newcomers come
to the end of the line, and whoever departs leaves the others in their order. All that happens to a
table is seen as one of two things: requests depart and leave every line, or one request advances
through its keys.

## Main definitions

* `Mutex.line`, `LockTable.line`: the line at a mutex, and at a key
* `LockTable.departing`: the requests that depart in an action
* `LockTable.Departs`, `LockTable.Advances`: what departures and polls change

## Main results

* `LockTable.Sound.advances`: a poll of a request that waits is an advance
* `LockTable.Sound.act_cases`: every other action is a departure
* `LockTable.Sound.tickets_act`, `LockTable.Sound.holder_act`: what an action does to the requests
  and to those by whom locks are held
-/

namespace BlobStore

/-! ## One mutex -/

namespace Mutex

/-- Those at a mutex, in the order in which they came: its owner, and those in its queue. -/
def line (m : Mutex) : List TicketId := m.owner.toList ++ m.queue

@[simp] theorem line_free : ({} : Mutex).line = [] := rfl

theorem mem_line_iff {m : Mutex} {t : TicketId} :
    t ∈ m.line ↔ m.owner = some t ∨ t ∈ m.queue := by
  simp [line]

namespace Serves

variable {owns awaits : TicketId → Prop} {m : Mutex} {t : TicketId}

theorem line_nodup (h : Serves owns awaits m) : m.line.Nodup := by
  unfold line
  cases hm : m.owner with
  | none => simpa using h.nodup
  | some u => exact List.nodup_cons.mpr ⟨h.apart u hm, h.nodup⟩

/-- The owner of a key stands first in the line. -/
theorem line_of_owns (h : Serves owns awaits m) (ht : owns t) : m.line = t :: m.queue := by
  simp [line, h.owned t ht]

/-- The owner is the first in the line. -/
theorem head?_line (h : Serves owns awaits m) : m.line.head? = m.owner := by
  unfold line
  cases hm : m.owner with
  | none => simp [h.free hm]
  | some u => rfl

theorem mem_line (h : Serves owns awaits m) (ht : t ∈ m.line) : owns t ∨ awaits t := by
  rcases mem_line_iff.mp ht with ho | hq
  · exact h.owner t ho
  · exact Or.inr (h.queued t hq)

theorem isIdle_iff_line (h : Serves owns awaits m) : m.isIdle ↔ m.line = [] := by
  rw [isIdle_iff]
  constructor
  · rintro rfl
    rfl
  · intro hl
    obtain ⟨owner, queue⟩ := m
    cases owner with
    | none => rw [show queue = [] from h.free rfl]
    | some u => simp [line] at hl

/-- A newcomer comes to the end of the line. -/
theorem line_claim (h : Serves owns awaits m) (t : TicketId) :
    (m.claim t).line = if t ∉ m.line then m.line ++ [t] else m.line := by
  have hf := h.free
  obtain ⟨owner, queue⟩ := m
  cases owner with
  | none => simp [claim, line, show queue = [] from hf rfl]
  | some u =>
    by_cases ht : u = t ∨ t ∈ queue
    · have hmem : t ∈ (⟨some u, queue⟩ : Mutex).line := by
        simpa [line, eq_comm] using ht
      rw [if_neg (not_not.mpr hmem)]
      simp only [claim, if_pos ht]
    · have hmem : t ∉ (⟨some u, queue⟩ : Mutex).line := by
        simpa [line, eq_comm] using ht
      rw [if_pos hmem]
      simp [claim, if_neg ht, line]

/-- Who leaves is missed in the line, and the others keep their places. -/
theorem line_leave (h : Serves owns awaits m) (t : TicketId) :
    (m.leave t).line = m.line.filter (· ≠ t) := by
  by_cases hm : m.owner = some t
  · have hq : m.queue.filter (· ≠ t) = m.queue := by
      apply List.filter_eq_self.mpr
      intro u hu
      have hne : u ≠ t := by
        rintro rfl
        exact h.apart u hm hu
      simpa using hne
    have hleave : m.leave t = ⟨m.queue.head?, m.queue.tail⟩ := by
      simp [Mutex.leave, Mutex.handOn, hm]
    have hline : m.line.filter (· ≠ t) = m.queue := by
      simpa [line, hm] using hq
    rw [hleave, hline]
    cases m.queue <;> rfl
  · have howner : m.owner.toList.filter (· ≠ t) = m.owner.toList := by
      apply List.filter_eq_self.mpr
      intro u hu
      have hne : u ≠ t := by
        rintro rfl
        exact hm (Option.mem_toList.mp hu)
      simpa using hne
    unfold line
    rw [List.filter_append, howner, Mutex.leave, if_neg hm]

end Serves

end Mutex

namespace LockTable

/-! ## The lines of a table -/

/-- Those at a key, in the order in which they came. -/
def line (table : LockTable) (k : Key) : List TicketId := (table.mutex k).line

/-- The request by which a lock is held. -/
def holder (table : LockTable) (l : LockId) : Option TicketId :=
  (table.locks.get? l).bind fun h => h.held.map Grant.ticket

/-- The acquires that an action cancels. -/
def cancelling (table : LockTable) : LockAction → List TicketId
  | .cancel t => if (table.tickets.get? t).isSome then [t] else []
  | .discard l => table.ticketsOf l
  | .make _ | .request _ | .poll _ | .release _ => []

/-- The granted acquire whose keys an action gives back. -/
def returning (table : LockTable) : LockAction → List TicketId
  | .release l | .discard l => (table.holder l).toList
  | .make _ | .request _ | .poll _ | .cancel _ => []

/-- The requests that depart in an action. -/
def departing (table : LockTable) (a : LockAction) : List TicketId :=
  table.cancelling a ++ table.returning a

variable {table after : LockTable} {t : TicketId} {x : Ticket} {l : LockId} {k : Key}

/-- Whoever gives something back holds a lock. -/
theorem holder_of_mem_returning {a : LockAction} (h : t ∈ table.returning a) :
    ∃ l, table.holder l = some t := by
  cases a with
  | release l | discard l => exact ⟨l, by simpa [returning] using h⟩
  | make keys | request l | poll u | cancel u => simp [returning] at h

theorem holder_eq_some_iff : table.holder l = some t ↔
    ∃ h g, table.locks.get? l = some h ∧ h.held = some g ∧ g.ticket = t := by
  simp only [holder, Option.bind_eq_some_iff, Option.map_eq_some_iff]
  constructor
  · rintro ⟨h, hl, g, hg, rfl⟩
    exact ⟨h, g, hl, hg, rfl⟩
  · rintro ⟨h, g, hl, hg, rfl⟩
    exact ⟨h, hl, g, hg, rfl⟩

theorem isHeld_iff_holder : table.isHeld l ↔ ∃ t, table.holder l = some t := by
  unfold isHeld holder KeysLock.isHeld
  cases table.locks.get? l with
  | none => simp
  | some h => cases hg : h.held <;> simp [hg]

/-- Who stands in the line at a key finds an entry there. -/
theorem mem_keys_of_mem_line (h : t ∈ table.line k) : k ∈ table.mutexes.keys := by
  rw [OrderedMap.mem_keys_iff]
  cases hm : table.mutexes.get? k with
  | none => simp [line, mutex, Mutexes.read, hm] at h
  | some m => rfl

namespace Sound

variable (s : table.Sound)

include s

theorem line_nodup (k : Key) : (table.line k).Nodup := (s.serves k).line_nodup

theorem mem_line (h : t ∈ table.line k) : table.Owns t k ∨ table.Awaits t k :=
  (s.serves k).mem_line h

theorem line_of_owns (h : table.Owns t k) : table.line k = t :: (table.mutex k).queue :=
  (s.serves k).line_of_owns h

theorem mem_line_of_owns (h : table.Owns t k) : t ∈ table.line k := by
  rw [s.line_of_owns h]
  exact List.mem_cons_self

/-- A request takes each of its keys once. -/
theorem not_owns_of_remaining (ht : table.tickets.get? t = some x) (hk : k ∈ x.remaining) :
    ¬ table.Owns t k := by
  obtain ⟨h, hl, hkeys⟩ := s.ticket_keys t x ht
  have hn := Key.nodup_of_pairwise (s.keys_sorted x.lock h hl)
  rw [← hkeys] at hn
  rintro (⟨y, hy, hky⟩ | ⟨l', h', g, hl', hg, he, -⟩)
  · obtain rfl : x = y := Option.some.inj (ht.symm.trans hy)
    exact List.disjoint_of_nodup_append hn hky hk
  · exact s.grant_ne ht hl' hg he

/-- Whoever waits gives nothing back. -/
theorem not_mem_returning (ht : table.tickets.get? t = some x) (a : LockAction) :
    t ∉ table.returning a := by
  intro hr
  obtain ⟨l, hl⟩ := holder_of_mem_returning hr
  obtain ⟨h, g, hl, hg, he⟩ := holder_eq_some_iff.mp hl
  exact s.grant_ne ht hl hg he

end Sound

/-! ## Departures -/

/-- The requests in `gone` have left the lines and the table; all others stand as they stood and own
what they owned. -/
structure Departs (gone : List TicketId) (before after : LockTable) : Prop where
  fresh : before.fresh ≤ after.fresh
  line : ∀ k, after.line k = (before.line k).filter (· ∉ gone)
  owns : ∀ t k, after.Owns t k ↔ before.Owns t k ∧ t ∉ gone
  tickets : ∀ t, t < before.fresh → ∀ x,
    after.tickets.get? t = some x ↔ before.tickets.get? t = some x ∧ t ∉ gone
  holder : ∀ l t, after.holder l = some t → before.holder l = some t

namespace Departs

theorem refl (table : LockTable) : Departs [] table table where
  fresh := Nat.le_refl _
  line k := by simp
  owns t k := by simp
  tickets t _ x := by simp
  holder _ _ := id

theorem trans {gone others : List TicketId} {a b c : LockTable} (hab : Departs gone a b)
    (hbc : Departs others b c) : Departs (gone ++ others) a c where
  fresh := Nat.le_trans hab.fresh hbc.fresh
  line k := by
    rw [hbc.line, hab.line, List.filter_filter]
    simp only [List.mem_append, not_or, Bool.decide_and, Bool.and_comm]
  owns t k := by
    rw [hbc.owns, hab.owns, List.mem_append, not_or, and_assoc]
  tickets t ht x := by
    rw [hbc.tickets t (Nat.lt_of_lt_of_le ht hab.fresh), hab.tickets t ht, List.mem_append, not_or,
      and_assoc]
  holder l t ht := hab.holder l t (hbc.holder l t ht)

end Departs

/-- A departure is seen in the lines, when those who depart leave the mutexes of their keys. -/
theorem Sound.line_departed (s : table.Sound) {keys : List Key} (hn : keys.Nodup)
    (hk : ∀ k, table.Owns t k ∨ table.Awaits t k → k ∈ keys) (k : Key) :
    (Mutexes.read (Mutexes.leaveAll t keys table.mutexes) k).line =
      (table.line k).filter (· ∉ [t]) := by
  have hline : ((table.mutex k).leave t).line = (table.line k).filter (· ∉ [t]) := by
    simpa [line] using (s.serves k).line_leave t
  rw [Mutexes.read_leaveAll t hn]
  split
  · exact hline
  · rename_i hnk
    have hnot : t ∉ table.line k := fun ht => hnk (hk k (s.mem_line ht))
    refine (List.filter_eq_self.mpr ?_).symm
    intro u hu
    simp only [List.mem_singleton, decide_eq_true_eq]
    rintro rfl
    exact hnot hu

theorem Sound.departs_make (s : table.Sound) (keys : List Key) :
    Departs [] table (table.make keys).2 where
  fresh := Nat.le_succ _
  line k := by simp [line, mutex, LockTable.make]
  owns t k := by simp [s.owns_make keys t k]
  tickets t _ x := by simp [LockTable.make]
  holder l t ht := by
    obtain ⟨h, g, hl, hg, he⟩ := holder_eq_some_iff.mp ht
    exact holder_eq_some_iff.mpr ⟨h, g, grant_of_make hl hg, hg, he⟩

theorem Sound.departs_request (s : table.Sound) (l : LockId) :
    Departs [] table (table.request l).2 where
  fresh := Nat.le_succ _
  line k := by simp [line, mutex, LockTable.request]
  owns t k := by simp [s.owns_request l t k]
  tickets t ht x := by simp [LockTable.request, Nat.ne_of_gt ht]
  holder _ _ := id

theorem Sound.departs_cancel (s : table.Sound) (t : TicketId) :
    Departs (table.cancelling (.cancel t)) table (table.cancel t) := by
  unfold LockTable.cancel
  cases ht : table.tickets.get? t with
  | none => simpa [cancelling, ht] using Departs.refl table
  | some x =>
    simp only [cancelling, ht, Option.isSome_some, if_true]
    refine ⟨Nat.le_refl _, s.line_departed (s.leaving_nodup ht) fun k hk => s.mem_leaving ht hk,
      ?_, ?_, fun _ _ => id⟩
    · intro u k
      rw [s.owns_cancelled ht, List.mem_singleton]
    · intro u _ y
      rw [OrderedMap.get?_erase_eq_some, List.mem_singleton, and_comm, eq_comm (a := u)]

theorem cancel_all_locks (table : LockTable) (ts : List TicketId) :
    (ts.foldl cancel table).locks = table.locks := by
  induction ts generalizing table with
  | nil => rfl
  | cons t rest ih => exact (ih (table.cancel t)).trans (cancel_locks t)

theorem Sound.departs_cancel_all (s : table.Sound) (ts : List TicketId)
    (ht : ∀ t ∈ ts, (table.tickets.get? t).isSome) (hn : ts.Nodup) :
    Departs ts table (ts.foldl LockTable.cancel table) := by
  induction ts generalizing table with
  | nil => exact Departs.refl table
  | cons t rest ih =>
    obtain ⟨htr, hr⟩ := List.nodup_cons.mp hn
    have hd := s.departs_cancel t
    rw [cancelling, if_pos (ht t List.mem_cons_self)] at hd
    refine hd.trans (ih (s.cancel t) ?_ hr)
    intro u hu
    obtain ⟨x, hx⟩ := Option.isSome_iff_exists.mp (ht u (List.mem_cons_of_mem t hu))
    have hut : u ∉ [t] := by
      rw [List.mem_singleton]
      rintro rfl
      exact htr hu
    exact Option.isSome_iff_exists.mpr ⟨x, (hd.tickets u (s.ticket_lt u x hx) x).mpr ⟨hx, hut⟩⟩

/-- The guards of a held lock dropped: the request by which it was held departs. -/
theorem Sound.departs_put_down (s : table.Sound) {h : KeysLock} {g : Grant}
    (hl : table.locks.get? l = some h) (hg : h.held = some g) :
    Departs [g.ticket] table
      { table.giveUp g with locks := table.locks.put l { h with held := none } } where
  fresh := Nat.le_refl _
  line := by
    have hn : g.keys.Nodup :=
      s.grant_keys l h g hl hg ▸ Key.nodup_of_pairwise (s.keys_sorted l h hl)
    exact s.line_departed hn fun k hk => s.mem_granted hl hg hk
  owns t k := by
    rw [s.owns_put_down hl hg, List.mem_singleton]
  tickets t _ x := by
    rw [List.mem_singleton]
    exact ⟨fun ht => ⟨ht, (s.grant_ne ht hl hg).symm⟩, And.left⟩
  holder l' t ht := by
    obtain ⟨h', g', hl', hg', he⟩ := holder_eq_some_iff.mp ht
    exact holder_eq_some_iff.mpr ⟨h', g', (grant_of_put_down hl' hg').2, hg', he⟩

/-- Nobody departs when mutexes are pruned, and when the locks that are held stay what they were. -/
theorem departs_tidied (table : LockTable) (keys : List Key) (locks : OrderedMap LockId KeysLock)
    (ho : ∀ l h, h.held ≠ none → (locks.get? l = some h ↔ table.locks.get? l = some h)) :
    Departs [] table { table with mutexes := Mutexes.prune keys table.mutexes, locks } where
  fresh := Nat.le_refl _
  line k := by simp [line, mutex, Mutexes.read_prune]
  owns t k := by
    simp only [List.not_mem_nil, not_false_iff, and_true]
    refine or_congr Iff.rfl (exists_congr fun l => exists_congr fun h => exists_congr fun g => ?_)
    refine and_congr_left fun hg => ho l h ?_
    simp [hg.1]
  tickets t _ x := by simp
  holder l t ht := by
    obtain ⟨h, g, hl, hg, he⟩ := holder_eq_some_iff.mp ht
    exact holder_eq_some_iff.mpr ⟨h, g, (ho l h (by simp [hg])).mp hl, hg, he⟩

theorem Sound.departs_release (s : table.Sound) (l : LockId) :
    Departs (table.holder l).toList table (table.release l).2 := by
  unfold LockTable.release holder
  cases hl : table.locks.get? l with
  | none => exact Departs.refl table
  | some h =>
    cases hg : h.held with
    | none => simpa [hg] using Departs.refl table
    | some g =>
      simpa [hg, giveUp] using
        (s.departs_put_down hl hg).trans (departs_tidied _ _ _ fun _ _ _ => Iff.rfl)

theorem Sound.mem_ticketsOf (s : table.Sound) :
    t ∈ table.ticketsOf l ↔ ∃ x, table.tickets.get? t = some x ∧ x.lock = l := by
  unfold ticketsOf
  rw [List.mem_map]
  constructor
  · rintro ⟨⟨u, x⟩, hm, rfl⟩
    obtain ⟨hm, hx⟩ := List.mem_filter.mp hm
    exact ⟨x, s.tickets_sorted.mem_entries_iff.mp hm, of_decide_eq_true hx⟩
  · rintro ⟨x, hx, hl⟩
    exact ⟨(t, x), List.mem_filter.mpr ⟨s.tickets_sorted.mem_entries_iff.mpr hx, by simpa using hl⟩,
      rfl⟩

theorem Sound.ticketsOf_nodup (s : table.Sound) (l : LockId) : (table.ticketsOf l).Nodup := by
  have hp : (table.tickets.entries.map (·.1)).Nodup :=
    List.Pairwise.imp (fun hlt => Nat.ne_of_lt hlt) s.tickets_sorted
  exact hp.sublist (List.filter_sublist.map _)

theorem Sound.departs_discard (s : table.Sound) (l : LockId) :
    Departs (table.ticketsOf l ++ (table.holder l).toList) table (table.discard l) := by
  have sc := s.cancel_all (table.ticketsOf l)
  have hd := s.departs_cancel_all (table.ticketsOf l)
    (fun t ht => by
      obtain ⟨x, hx, -⟩ := s.mem_ticketsOf.mp ht
      exact Option.isSome_iff_exists.mpr ⟨x, hx⟩)
    (s.ticketsOf_nodup l)
  refine hd.trans ?_
  unfold LockTable.discard holder
  rw [← cancel_all_locks table (table.ticketsOf l)]
  generalize (table.ticketsOf l).foldl LockTable.cancel table = cleared at sc
  simp only
  cases hl : cleared.locks.get? l with
  | none => exact Departs.refl cleared
  | some h =>
    cases hg : h.held with
    | none =>
      have htidy := departs_tidied cleared h.keys (cleared.locks.erase l) (fun l' h' hh => by
          rw [OrderedMap.get?_erase_eq_some]
          refine ⟨And.right, fun hl' => ⟨?_, hl'⟩⟩
          rintro rfl
          exact hh (Option.some.inj (hl.symm.trans hl') ▸ hg))
      simpa [hg] using htidy
    | some g =>
      have hput := sc.departs_put_down hl hg
      have htidy := departs_tidied
        { cleared.giveUp g with locks := cleared.locks.put l { h with held := none } }
        h.keys (cleared.locks.erase l) (fun l' h' hh => by
          rw [OrderedMap.get?_erase_eq_some, OrderedMap.get?_put_eq_some]
          refine ⟨Or.inr, ?_⟩
          rintro (⟨-, rfl⟩ | hl')
          · exact absurd rfl hh
          · exact hl')
      simpa [hg, giveUp] using hput.trans htidy

/-- A lock that is dropped is there no longer, and all others are. -/
theorem get?_discard (table : LockTable) (l l' : LockId) :
    (table.discard l).locks.get? l' = if l = l' then none else table.locks.get? l' := by
  unfold discard
  rw [← cancel_all_locks table (table.ticketsOf l)]
  generalize (table.ticketsOf l).foldl cancel table = cleared
  cases hl : cleared.locks.get? l with
  | none =>
    by_cases he : l = l'
    · simp [← he, hl]
    · simp [he, hl]
  | some h => cases hg : h.held <;> simp [hl, hg, giveUp]

/-- Every action that is not a poll is a departure. -/
theorem Sound.departs (s : table.Sound) {a : LockAction} (ha : ∀ t, a ≠ .poll t) :
    Departs (table.departing a) table (table.act a) := by
  cases a with
  | make keys => exact s.departs_make keys
  | request l =>
    simp only [LockTable.act]
    split
    · exact s.departs_request l
    · exact Departs.refl table
  | poll t => exact absurd rfl (ha t)
  | cancel t =>
    simp only [departing, returning, List.append_nil]
    exact s.departs_cancel t
  | release l => exact s.departs_release l
  | discard l => exact s.departs_discard l

/-! ## Advances -/

/-- The request `t`, which waits as `x`, takes one key after the other up to the first that somebody
else has. If none remains it is granted. -/
structure Advances (t : TicketId) (x : Ticket) (taken remaining : List Key)
    (before after : LockTable) : Prop where
  split : taken ++ remaining = x.remaining
  line : ∀ k, after.line k =
    if (k ∈ taken ∨ remaining.head? = some k) ∧ t ∉ before.line k then before.line k ++ [t]
    else before.line k
  owns : ∀ u k, after.Owns u k ↔ before.Owns u k ∨ (u = t ∧ k ∈ taken)
  refused : ∀ k, remaining.head? = some k → ∃ u, u ≠ t ∧ (before.mutex k).owner = some u
  tickets : after.tickets = if remaining = [] then before.tickets.erase t
    else before.tickets.put t { x with taken := x.taken ++ taken, remaining }
  granted : remaining = [] → ∃ h, before.locks.get? x.lock = some h ∧
    after.locks = before.locks.put x.lock { h with held := some ⟨t, h.keys⟩ }
  waiting : remaining ≠ [] → after.locks = before.locks
  fresh : after.fresh = before.fresh

namespace Advances

variable {taken remaining : List Key} (v : Advances t x taken remaining table after)

include v

/-- The request itself is gone if it is granted, and has less to take otherwise. -/
theorem get?_self : after.tickets.get? t =
    if remaining = [] then none else some { x with taken := x.taken ++ taken, remaining } := by
  rw [v.tickets]
  split <;> simp

/-- All other requests are as they were. -/
theorem get?_of_ne {u : TicketId} (hne : u ≠ t) :
    after.tickets.get? u = table.tickets.get? u := by
  rw [v.tickets]
  split <;> simp [hne.symm]

/-- A request that is still there after its poll has some key to take. -/
theorem ne_nil_of_get? {y : Ticket} (h : after.tickets.get? t = some y) :
    remaining ≠ [] ∧ y = { x with taken := x.taken ++ taken, remaining } := by
  rw [v.get?_self] at h
  split at h
  · cases h
  · rename_i hr
    exact ⟨hr, (Option.some.inj h).symm⟩

end Advances

/-- What collecting keys does to the lines. -/
theorem Sound.line_collected (s : table.Sound) {keys taken remaining : List Key} {ms : Mutexes}
    (c : Mutexes.Collected t keys table.mutexes taken remaining ms) (k : Key) :
    (Mutexes.read ms k).line =
      if (k ∈ taken ∨ remaining.head? = some k) ∧ t ∉ table.line k then table.line k ++ [t]
      else table.line k := by
  rw [c.claimed k]
  by_cases hk : k ∈ taken ∨ remaining.head? = some k
  · rw [if_pos hk]
    simp only [hk, true_and]
    exact (s.serves k).line_claim t
  · rw [if_neg hk, if_neg (fun h => hk h.1)]
    rfl

theorem refused_of_collected {keys taken remaining : List Key} {ms : Mutexes}
    (c : Mutexes.Collected t keys table.mutexes taken remaining ms)
    (hk : remaining.head? = some k) : ∃ u, u ≠ t ∧ (table.mutex k).owner = some u := by
  obtain ⟨hnone, hne⟩ := not_or.mp (mt Mutex.claim_owner_iff.mpr (c.refused k hk))
  obtain ⟨u, hu⟩ := Option.ne_none_iff_exists'.mp hnone
  exact ⟨u, fun he => hne (he ▸ hu), hu⟩

/-- A poll of a request that waits is an advance, which grants the lock if no key remains. -/
theorem Sound.advances (s : table.Sound) (ht : table.tickets.get? t = some x) :
    ∃ taken remaining, Advances t x taken remaining table (table.poll t).2 ∧
      ((table.poll t).1 = true ↔ remaining = []) := by
  obtain ⟨h, hl, hk⟩ := s.ticket_keys t x ht
  have c := Mutexes.collect_spec t (s.remaining_nodup ht) table.mutexes
  unfold LockTable.poll
  simp only [ht]
  refine ⟨(Mutexes.collect t x.remaining table.mutexes).1,
    (Mutexes.collect t x.remaining table.mutexes).2.1, ?_⟩
  split
  · rename_i hr
    rw [hr] at c ⊢
    have htaken : x.taken ++ (Mutexes.collect t x.remaining table.mutexes).1 = h.keys := by
      rw [← hk]
      exact congrArg (x.taken ++ ·) (by simpa using c.split)
    have howns := s.owns_granted ht c hl
    rw [htaken] at howns
    rw [s.hold_eq ht hl c, htaken]
    exact ⟨⟨c.split, s.line_collected c, howns, fun k => refused_of_collected c, by simp,
      fun _ => ⟨h, hl, rfl⟩, fun hne => absurd rfl hne, rfl⟩, by simp⟩
  · rename_i hr
    have hr : (Mutexes.collect t x.remaining table.mutexes).2.1 ≠ [] := hr
    exact ⟨⟨c.split, s.line_collected c, owns_waiting ht _ _ _, fun k => refused_of_collected c,
      by simp only [if_neg hr], fun he => absurd he hr, fun _ => rfl, rfl⟩, by simp [hr]⟩

/-- **One action.** An action is an advance of a request that waits, or a departure. -/
theorem Sound.act_cases (s : table.Sound) (a : LockAction) :
    ((∀ t, a = .poll t → table.tickets.get? t = none) ∧
      Departs (table.departing a) table (table.act a)) ∨
    ∃ t x taken remaining, a = .poll t ∧ table.tickets.get? t = some x ∧
      Advances t x taken remaining table (table.act a) ∧
      ((table.poll t).1 = true ↔ remaining = []) := by
  by_cases ha : ∃ t, a = .poll t
  · obtain ⟨t, rfl⟩ := ha
    cases ht : table.tickets.get? t with
    | none =>
      refine Or.inl ⟨fun u hu => by cases hu; exact ht, ?_⟩
      simpa [departing, cancelling, returning, LockTable.act, LockTable.poll, ht]
        using Departs.refl table
    | some x =>
      obtain ⟨taken, remaining, hadv, hdone⟩ := s.advances ht
      exact Or.inr ⟨t, x, taken, remaining, rfl, ht, hadv, hdone⟩
  · have hnot : ∀ t, a ≠ .poll t := fun t ht => ha ⟨t, ht⟩
    exact Or.inl ⟨fun t ht => absurd ht (hnot t), s.departs hnot⟩

/-- The requests after an action were there before, or are new ones. -/
theorem Sound.tickets_act (s : table.Sound) {a : LockAction}
    (h : (table.act a).tickets.get? t = some x) :
    (∃ y, table.tickets.get? t = some y ∧ y.lock = x.lock) ∨
      (a = .request x.lock ∧ t = table.fresh) := by
  cases a with
  | make keys => exact Or.inl ⟨x, h, rfl⟩
  | request l =>
    simp only [LockTable.act] at h
    split at h
    · rcases OrderedMap.get?_put_eq_some.mp h with ⟨rfl, rfl⟩ | ⟨-, h⟩
      · exact Or.inr ⟨rfl, rfl⟩
      · exact Or.inl ⟨x, h, rfl⟩
    · exact Or.inl ⟨x, h, rfl⟩
  | poll u =>
    cases hu : table.tickets.get? u with
    | none => exact Or.inl ⟨x, by simpa [LockTable.act, LockTable.poll, hu] using h, rfl⟩
    | some y =>
      obtain ⟨taken, remaining, v, -⟩ := s.advances hu
      by_cases hne : t = u
      · subst hne
        exact Or.inl ⟨y, hu, by rw [(v.ne_nil_of_get? h).2]⟩
      · exact Or.inl ⟨x, v.get?_of_ne hne ▸ h, rfl⟩
  | cancel u => exact Or.inl ⟨x, (cancel_tickets u).2 t x h, rfl⟩
  | release l =>
    refine Or.inl ⟨x, ?_, rfl⟩
    simp only [LockTable.act, LockTable.release] at h
    split at h
    · exact h
    · split at h <;> exact h
  | discard l =>
    refine Or.inl ⟨x, ?_, rfl⟩
    simp only [LockTable.act, LockTable.discard] at h
    have hcleared : ((table.ticketsOf l).foldl LockTable.cancel table).tickets.get? t = some x := by
      split at h
      · exact h
      · split at h <;> exact h
    exact (cancel_all_tickets hcleared).2

/-- The locks after an action were there before, over the same keys, or are new. -/
theorem Sound.locks_act (s : table.Sound) {a : LockAction} {h' : KeysLock}
    (h : (table.act a).locks.get? l = some h') :
    (∃ h, table.locks.get? l = some h ∧ h'.keys = h.keys) ∨
      ∃ keys, a = .make keys ∧ l = table.fresh ∧ h'.keys = Key.ordered keys := by
  cases a with
  | make keys =>
    rcases OrderedMap.get?_put_eq_some.mp h with ⟨rfl, rfl⟩ | ⟨-, h⟩
    · exact Or.inr ⟨keys, rfl, rfl, rfl⟩
    · exact Or.inl ⟨h', h, rfl⟩
  | request l' =>
    simp only [LockTable.act] at h
    split at h <;> exact Or.inl ⟨h', h, rfl⟩
  | poll u =>
    left
    cases hu : table.tickets.get? u with
    | none =>
      have hsame : (table.poll u).2 = table := by simp [LockTable.poll, hu]
      exact ⟨h', hsame ▸ h, rfl⟩
    | some x =>
      obtain ⟨taken, remaining, v, -⟩ := s.advances hu
      by_cases hr : remaining = []
      · obtain ⟨j, hj, hlocks⟩ := v.granted hr
        simp only [LockTable.act] at h
        rw [hlocks] at h
        rcases OrderedMap.get?_put_eq_some.mp h with ⟨rfl, rfl⟩ | ⟨-, h⟩
        · exact ⟨j, hj, rfl⟩
        · exact ⟨h', h, rfl⟩
      · exact ⟨h', v.waiting hr ▸ h, rfl⟩
  | cancel u =>
    simp only [LockTable.act, cancel_locks] at h
    exact Or.inl ⟨h', h, rfl⟩
  | release l' =>
    left
    simp only [LockTable.act, LockTable.release] at h
    split at h
    · exact ⟨h', h, rfl⟩
    · rename_i old hold
      split at h
      · exact ⟨h', h, rfl⟩
      · rcases OrderedMap.get?_put_eq_some.mp h with ⟨rfl, rfl⟩ | ⟨-, h⟩
        · exact ⟨old, hold, rfl⟩
        · exact ⟨h', h, rfl⟩
  | discard l' =>
    simp only [LockTable.act, get?_discard] at h
    split at h
    · cases h
    · exact Or.inl ⟨h', h, rfl⟩

/-- No request appears again. -/
theorem Sound.get?_act_eq_none (s : table.Sound) (a : LockAction) (hlt : t < table.fresh)
    (h : table.tickets.get? t = none) : (table.act a).tickets.get? t = none := by
  refine Option.eq_none_iff_forall_ne_some.mpr fun x hx => ?_
  rcases s.tickets_act hx with ⟨y, hy, -⟩ | ⟨-, rfl⟩
  · rw [h] at hy
    cases hy
  · exact Nat.lt_irrefl _ hlt

theorem Sound.fresh_le (s : table.Sound) (a : LockAction) : table.fresh ≤ (table.act a).fresh := by
  rcases s.act_cases a with ⟨-, d⟩ | ⟨u, x, taken, remaining, -, -, v, -⟩
  · exact d.fresh
  · exact Nat.le_of_eq v.fresh.symm

/-- Who holds a lock after an action held it before, or is granted it. -/
theorem Sound.holder_act (s : table.Sound) {a : LockAction} (h : (table.act a).holder l = some t) :
    table.holder l = some t ∨
      (a = .poll t ∧ (table.poll t).1 = true ∧
        ∃ x, table.tickets.get? t = some x ∧ x.lock = l) := by
  rcases s.act_cases a with ⟨-, d⟩ | ⟨u, x, taken, remaining, rfl, hu, v, hdone⟩
  · exact Or.inl (d.holder l t h)
  · by_cases hr : remaining = []
    · obtain ⟨j, g, hl, hg, rfl⟩ := holder_eq_some_iff.mp h
      obtain ⟨i, hi, hlocks⟩ := v.granted hr
      rw [hlocks] at hl
      rcases Sound.grant_cases hl hg with ⟨rfl, -, rfl⟩ | ⟨-, hl⟩
      · exact Or.inr ⟨rfl, hdone.mpr hr, x, hu, rfl⟩
      · exact Or.inl (holder_eq_some_iff.mpr ⟨j, g, hl, hg, rfl⟩)
    · have hsame : (table.act (.poll u)).holder l = table.holder l := by
        unfold holder
        rw [v.waiting hr]
      exact Or.inl (hsame ▸ h)

end LockTable

end BlobStore
