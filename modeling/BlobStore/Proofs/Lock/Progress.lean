import BlobStore.Proofs.Lock.History
import Mathlib.Data.Set.Finite.List
import Mathlib.Order.WellFoundedSet

/-!
# Progress

An acquire that cannot be granted has still to take a key that belongs to another one. Keys are
taken in ascending order, so if the other one waits as well, it is for a greater key. Whoever
follows the waits comes to greater and greater keys, and at last to an acquire that waits no longer,
by which a lock is held. When such locks are given back one after the other, all acquires are
granted.

## Main definitions

* `LockTable.Waiting`: an acquire that was started, and has not been granted or cancelled
* `LockTable.WaitsOn`: an acquire has still to take a key that belongs to another one
* `LockTable.Settled`: no acquire that waits would be granted if it was polled
* `Round`, `LockTable.Fits`: acquires polled until none is granted, and a held lock given back
* `LockTable.load`: the acquires that are still to be granted, and the locks that are held

## Main results

* `LockTable.waiting_iff_requested`: those who wait were started, and are still to be granted
* `LockTable.Sound.not_granted_iff`: what keeps an acquire from being granted is another one
* `LockTable.Sound.depends`: every wait depends on a lock that is held
* `LockTable.Sound.settled_run`: acquires that were all polled are settled
* `LockTable.no_deadlock`: rounds come to an end, and all who waited are granted then
-/

namespace BlobStore

/-- Acquires polled one after the other, and then a lock given back. -/
structure Round where
  polls : List TicketId
  lock : LockId
deriving DecidableEq, Repr

/-- The polls of a round, and the release at its end. -/
def Round.actions (r : Round) : List LockAction := r.polls.map .poll ++ [.release r.lock]

namespace LockTable

/-- An acquire that stands in a line and has not been granted. -/
def Waiting (table : LockTable) (t : TicketId) : Prop :=
  (table.tickets.get? t).isSome ∧ ∃ k, t ∈ table.line k

/-- The acquire `t` has still to take a key whose mutex belongs to `u`. -/
def WaitsOn (table : LockTable) (t u : TicketId) : Prop :=
  ∃ x k, table.tickets.get? t = some x ∧ k ∈ x.remaining ∧ u ≠ t ∧
    (table.mutex k).owner = some u

/-- No acquire that waits is granted when it is polled. -/
def Settled (table : LockTable) : Prop := ∀ t, table.Waiting t → (table.poll t).1 = false

/-- In each round no acquire that waits could be granted after the polls, and the lock that is given
back is held. -/
def Fits : LockTable → List Round → Prop
  | _, [] => True
  | table, r :: rest =>
    (table.run (r.polls.map .poll)).Settled ∧ (table.run (r.polls.map .poll)).isHeld r.lock ∧
      (table.run r.actions).Fits rest

/-- The number of acquires that have not been granted and of locks that are held. -/
def load (table : LockTable) : Nat :=
  table.tickets.size + table.locks.entries.countP (·.2.isHeld)

variable {table after : LockTable} {t u w : TicketId} {x : Ticket} {l : LockId} {k : Key}
  {a : LockAction} {taken remaining : List Key}

instance : Decidable (table.Waiting t) :=
  decidable_of_iff ((table.tickets.get? t).isSome ∧ ∃ k ∈ table.mutexes.keys, t ∈ table.line k)
    (and_congr_right fun _ => exists_congr fun _ => and_iff_right_of_imp mem_keys_of_mem_line)

instance : Decidable table.Settled :=
  decidable_of_iff (∀ t ∈ table.tickets.keys, table.Waiting t → (table.poll t).1 = false)
    (forall_congr' fun _ =>
      ⟨fun h hw => h ((OrderedMap.mem_keys_iff _ _).mpr hw.1) hw, fun h _ => h⟩)

instance decidableFits : ∀ table rounds, Decidable (Fits table rounds)
  | _, [] => isTrue trivial
  | table, r :: rest =>
    have := decidableFits (table.run r.actions) rest
    inferInstanceAs (Decidable (_ ∧ _ ∧ _))

/-- Those who wait are those who were started and are still to be granted. -/
theorem waiting_iff_requested (actions : List LockAction) :
    (run {} actions).Waiting t ↔
      ((run {} actions).tickets.get? t).isSome ∧ ∃ keys, (t, keys) ∈ requested actions := by
  refine and_congr_right fun hs => ⟨?_, ?_⟩
  · rintro ⟨k, hk⟩
    exact requested_of_mem_line actions hk
  · rintro ⟨keys, hr⟩
    obtain ⟨k, hk⟩ := exists_awaits_of_requested actions hr hs
    exact ⟨k, awaits_of_requested actions hr hk⟩

/-! ## What an acquire waits for -/

namespace Advances

/-- A key that has an owner keeps it when somebody advances. -/
theorem owner_eq (s : table.Sound) (v : Advances t x taken remaining table (table.act a))
    (h : (table.mutex k).owner = some u) : ((table.act a).mutex k).owner = some u := by
  have hafter := ((s.act a).serves k).head?_line
  have hline : ((table.act a).mutex k).line = (table.mutex k).line ++ arriving k table a :=
    v.line_eq k
  rw [← hafter, hline, List.head?_append, (s.serves k).head?_line, h]
  rfl

end Advances

/-- What keeps an acquire from being granted is that one of its keys belongs to another one. -/
theorem Sound.not_granted_iff (s : table.Sound) (ht : table.tickets.get? t = some x) :
    (table.poll t).1 = false ↔ ∃ u, table.WaitsOn t u := by
  obtain ⟨taken, remaining, v, hdone⟩ := s.advances ht
  rw [← Bool.not_eq_true, hdone]
  constructor
  · intro hr
    obtain ⟨k, hk⟩ := Option.ne_none_iff_exists'.mp (mt List.head?_eq_none_iff.mp hr)
    obtain ⟨u, hne, ho⟩ := v.refused k hk
    have hmem : k ∈ x.remaining := v.split ▸ List.mem_append_right _ (List.mem_of_head? hk)
    exact ⟨u, x, k, ht, hmem, hne, ho⟩
  · rintro ⟨u, y, k, hy, hk, hne, ho⟩ hr
    obtain rfl : x = y := Option.some.inj (ht.symm.trans hy)
    have htaken : k ∈ taken := by
      rw [← v.split, hr, List.append_nil] at hk
      exact hk
    have hself := (s.poll t).serves k |>.owned t ((v.owns t k).mpr (Or.inr ⟨rfl, htaken⟩))
    have hother := Advances.owner_eq (a := .poll t) s v ho
    exact hne (Option.some.inj (hother.symm.trans hself))

/-- Keys are taken in ascending order: an acquire that owns a key, or was handed it, waits for none
but greater ones. -/
theorem Sound.lt_of_owner (s : table.Sound) {j : Key} (ho : (table.mutex j).owner = some u)
    (hu : table.tickets.get? u = some x) (hk : k ∈ x.remaining)
    (hne : (table.mutex k).owner ≠ some u) : j < k := by
  obtain ⟨h, hl, hkeys⟩ := s.ticket_keys u x hu
  have hsorted := s.keys_sorted x.lock h hl
  rw [← hkeys] at hsorted
  obtain ⟨-, hrest, hcross⟩ := List.pairwise_append.mp hsorted
  rcases (s.serves j).owner u ho with (⟨y, hy, hj⟩ | ⟨l', h', g, hl', hg, he, -⟩) | ⟨y, hy, hj⟩
  · obtain rfl : x = y := Option.some.inj (hu.symm.trans hy)
    exact hcross j hj k hk
  · exact absurd he (s.grant_ne hu hl' hg)
  · obtain rfl : x = y := Option.some.inj (hu.symm.trans hy)
    obtain ⟨tail, htail⟩ := List.head?_eq_some_iff.mp hj
    rw [htail] at hk hrest
    rcases List.mem_cons.mp hk with rfl | hk
    · exact absurd ho hne
    · exact (List.pairwise_cons.mp hrest).1 k hk

/-- Whoever a key belongs to, and waits no longer, holds a lock. -/
theorem Sound.holder_of_owner (s : table.Sound) (ho : (table.mutex k).owner = some u)
    (hu : table.tickets.get? u = none) : ∃ l, table.holder l = some u := by
  rcases (s.serves k).owner u ho with (⟨y, hy, -⟩ | ⟨l, h, g, hl, hg, he, -⟩) | ⟨y, hy, -⟩
  · rw [hu] at hy
    cases hy
  · exact ⟨l, holder_eq_some_iff.mpr ⟨h, g, hl, hg, he⟩⟩
  · rw [hu] at hy
    cases hy

/-- Whoever a key belongs to holds a lock, or depends on one by which a lock is held. The induction
goes down from the greatest key: one who waits does so for a greater key. -/
theorem Sound.depends_of_owner (s : table.Sound) (hs : table.Settled)
    (ho : (table.mutex k).owner = some u) :
    ∃ l w, table.holder l = some w ∧ Relation.ReflTransGen table.WaitsOn u w := by
  have hwf : {j | j ∈ table.mutexes.keys}.WellFoundedOn (Function.swap (· < ·)) :=
    (List.finite_toSet table.mutexes.keys).wellFoundedOn
  have hkey : ∀ {k u}, (table.mutex k).owner = some u → k ∈ table.mutexes.keys :=
    fun ho => mem_keys_of_mem_line (Mutex.mem_line_iff.mpr (Or.inl ho))
  refine hwf.induction (P := fun k => ∀ u, (table.mutex k).owner = some u →
    ∃ l w, table.holder l = some w ∧ Relation.ReflTransGen table.WaitsOn u w) (hkey ho) ?_ u ho
  intro k _ ih u ho
  cases hu : table.tickets.get? u with
  | none =>
    obtain ⟨l, hl⟩ := s.holder_of_owner ho hu
    exact ⟨l, u, hl, .refl⟩
  | some y =>
    have hwait : table.Waiting u := ⟨hu ▸ rfl, k, Mutex.mem_line_iff.mpr (Or.inl ho)⟩
    obtain ⟨w, z, j, hz, hj, hne, hown⟩ := (s.not_granted_iff hu).mp (hs u hwait)
    obtain rfl : y = z := Option.some.inj (hu.symm.trans hz)
    have hlt : k < j := s.lt_of_owner ho hu hj fun h => hne (Option.some.inj (hown.symm.trans h))
    obtain ⟨l, v, hl, hv⟩ := ih j (hkey hown) hlt w hown
    exact ⟨l, v, hl, .head ⟨y, j, hu, hj, hne, hown⟩ hv⟩

/-- Every wait depends on an acquire by which a lock is held. -/
theorem Sound.depends (s : table.Sound) (hs : table.Settled) (hw : table.Waiting t) :
    ∃ l u, table.holder l = some u ∧ Relation.TransGen table.WaitsOn t u := by
  obtain ⟨x, hx⟩ := Option.isSome_iff_exists.mp hw.1
  obtain ⟨u, hu⟩ := (s.not_granted_iff hx).mp (hs t hw)
  obtain ⟨y, k, hy, hk, hne, ho⟩ := hu
  obtain ⟨l, w, hl, hdep⟩ := s.depends_of_owner hs ho
  exact ⟨l, w, hl, .head' ⟨y, k, hy, hk, hne, ho⟩ hdep⟩

/-! ## Polls -/

/-- Who waits still waits after an action, unless it was granted or cancelled by it. -/
theorem Sound.waiting_act (s : table.Sound) (hw : table.Waiting t) (hc : t ∉ table.cancelling a) :
    (table.act a).Waiting t ∨ t ∈ table.granting a := by
  obtain ⟨hsome, k, hk⟩ := hw
  obtain ⟨x, hx⟩ := Option.isSome_iff_exists.mp hsome
  rcases s.act_cases a with ⟨-, d⟩ | ⟨u, y, taken, remaining, rfl, hu, v, hdone⟩
  · have hstay : t ∉ table.departing a :=
      fun h => (List.mem_append.mp h).elim hc (s.not_mem_returning hx a)
    have hx' := (d.tickets t (s.ticket_lt t x hx) x).mpr ⟨hx, hstay⟩
    refine Or.inl ⟨hx' ▸ rfl, k, ?_⟩
    rw [d.line, List.mem_filter]
    exact ⟨hk, by simpa using hstay⟩
  · have hline : t ∈ (table.act (.poll u)).line k := by
      rw [v.line_eq k]
      exact List.mem_append_left _ hk
    by_cases hut : t = u
    · subst hut
      by_cases hr : remaining = []
      · exact Or.inr (mem_granting_iff.mpr ⟨rfl, hdone.mpr hr⟩)
      · exact Or.inl ⟨by simp [v.get?_self, hr], k, hline⟩
    · exact Or.inl ⟨(v.get?_of_ne hut).symm ▸ hsome, k, hline⟩

/-- A poll brings nobody into the lines but the acquire that is polled. -/
theorem Sound.waiting_of_poll (s : table.Sound) (hw : (table.poll u).2.Waiting t) :
    t = u ∨ table.Waiting t := by
  obtain ⟨hsome, k, hk⟩ := hw
  cases hu : table.tickets.get? u with
  | none =>
    simp only [LockTable.poll, hu] at hsome hk
    exact Or.inr ⟨hsome, k, hk⟩
  | some x =>
    by_cases hne : t = u
    · exact Or.inl hne
    · obtain ⟨taken, remaining, v, -⟩ := s.advances hu
      refine Or.inr ⟨v.get?_of_ne hne ▸ hsome, k, ?_⟩
      rw [v.line] at hk
      split at hk
      · exact (List.mem_append.mp hk).resolve_right fun h => hne (List.mem_singleton.mp h)
      · exact hk

/-- The acquire is not there, or cannot be granted. -/
def Stuck (table : LockTable) (t : TicketId) : Prop :=
  table.tickets.get? t = none ∨ ∃ u, table.WaitsOn t u

theorem Sound.stuck_iff (s : table.Sound) : table.Stuck t ↔ (table.poll t).1 = false := by
  unfold Stuck
  cases ht : table.tickets.get? t with
  | none => simp [LockTable.poll, ht]
  | some x => simp [s.not_granted_iff ht]

/-- An acquire that cannot be granted cannot be granted after polls either: the key that it lacks
stays with its owner. -/
theorem Sound.stuck_poll (s : table.Sound) (h : table.Stuck t) (u : TicketId) :
    (table.poll u).2.Stuck t := by
  cases hu : table.tickets.get? u with
  | none => simpa [LockTable.poll, hu] using h
  | some y =>
    obtain ⟨taken, remaining, v, -⟩ := s.advances hu
    by_cases hut : t = u
    · subst hut
      obtain ⟨w, x, k, hx, hk, hne, ho⟩ := h.resolve_left (by simp [hu])
      obtain rfl : y = x := Option.some.inj (hu.symm.trans hx)
      have ho' := Advances.owner_eq (a := .poll t) s v ho
      by_cases hr : remaining = []
      · exact Or.inl (by rw [v.get?_self, if_pos hr])
      · have hnot : k ∉ taken := by
          intro htaken
          have hself := ((s.poll t).serves k).owned t ((v.owns t k).mpr (Or.inr ⟨rfl, htaken⟩))
          exact hne (Option.some.inj (ho'.symm.trans hself))
        have hmem : k ∈ remaining := by
          rw [← v.split] at hk
          exact (List.mem_append.mp hk).resolve_left hnot
        exact Or.inr ⟨w, _, k, by rw [v.get?_self, if_neg hr], hmem, hne, ho'⟩
    · unfold Stuck WaitsOn
      rw [v.get?_of_ne hut]
      refine h.imp_right ?_
      rintro ⟨w, x, k, hx, hk, hne, ho⟩
      exact ⟨w, x, k, hx, hk, hne, Advances.owner_eq (a := .poll u) s v ho⟩

/-- An acquire that was polled was granted, and so is not there, or cannot be granted. -/
theorem Sound.stuck_poll_self (s : table.Sound) (t : TicketId) : (table.poll t).2.Stuck t := by
  cases hp : (table.poll t).1 with
  | false => exact s.stuck_poll (s.stuck_iff.mpr hp) t
  | true =>
    cases ht : table.tickets.get? t with
    | none => exact Or.inl (by simp [LockTable.poll, ht])
    | some x =>
      obtain ⟨taken, remaining, v, hdone⟩ := s.advances ht
      exact Or.inl (by rw [v.get?_self, if_pos (hdone.mp hp)])

theorem Sound.stuck_run (s : table.Sound) {polls : List TicketId}
    (h : t ∈ polls ∨ table.Stuck t) : (table.run (polls.map .poll)).Stuck t := by
  induction polls generalizing table with
  | nil => exact h.resolve_left List.not_mem_nil
  | cons u rest ih =>
    refine ih (s.poll u) ?_
    rcases h with h | h
    · rcases List.mem_cons.mp h with rfl | h
      · exact Or.inr (s.stuck_poll_self t)
      · exact Or.inl h
    · exact Or.inr (s.stuck_poll h u)

theorem Sound.waiting_of_run (s : table.Sound) {polls : List TicketId}
    (hw : (table.run (polls.map .poll)).Waiting t) : t ∈ polls ∨ table.Waiting t := by
  induction polls generalizing table with
  | nil => exact Or.inr hw
  | cons u rest ih =>
    rcases ih (s.poll u) hw with h | h
    · exact Or.inl (List.mem_cons_of_mem u h)
    · refine (s.waiting_of_poll h).imp_left ?_
      rintro rfl
      exact List.mem_cons_self

/-- When all acquires that wait were polled, none of them would be granted by another poll. -/
theorem Sound.settled_run (s : table.Sound) {polls : List TicketId}
    (h : ∀ t, table.Waiting t → t ∈ polls) : (table.run (polls.map .poll)).Settled := by
  intro t hw
  rw [← (s.run _).stuck_iff]
  exact s.stuck_run (Or.inl ((s.waiting_of_run hw).elim id (h t)))

/-! ## Rounds -/

theorem load_poll_le (s : table.Sound) (t : TicketId) : (table.poll t).2.load ≤ table.load := by
  cases ht : table.tickets.get? t with
  | none => simp [poll, ht]
  | some x =>
    obtain ⟨taken, remaining, v, -⟩ := s.advances ht
    obtain ⟨before, behind, hall, hput, herase⟩ := s.tickets_sorted.split ht
    unfold load OrderedMap.size
    rw [v.tickets, hall]
    by_cases hr : remaining = []
    · obtain ⟨h, hl, hlocks⟩ := v.granted hr
      obtain ⟨lower, upper, hlall, hlput, -⟩ := s.locks_sorted.split hl
      rw [if_pos hr, herase, hlocks, hlput, hlall]
      simp only [List.length_append, List.length_cons, List.countP_append, List.countP_cons]
      split <;> split <;> omega
    · rw [if_neg hr, hput, v.waiting hr]
      simp

theorem load_release (s : table.Sound) (h : table.isHeld l) :
    (table.release l).2.load + 1 = table.load := by
  obtain ⟨t, ht⟩ := isHeld_iff_holder.mp h
  obtain ⟨j, g, hl, hg, -⟩ := holder_eq_some_iff.mp ht
  obtain ⟨lower, upper, hall, hput, -⟩ := s.locks_sorted.split hl
  unfold load LockTable.release
  simp only [hl, hg, giveUp, hput, hall, List.countP_append, List.countP_cons, KeysLock.isHeld,
    Option.isSome_some, Option.isSome_none]
  simp only [if_true, if_false, Bool.false_eq_true]
  omega

theorem load_run_le (s : table.Sound) (polls : List TicketId) :
    (table.run (polls.map .poll)).load ≤ table.load := by
  induction polls generalizing table with
  | nil => exact Nat.le_refl _
  | cons t rest ih => exact (ih (s.poll t)).trans (load_poll_le s t)

theorem run_append (table : LockTable) (actions others : List LockAction) :
    table.run (actions ++ others) = (table.run actions).run others := List.foldl_append

/-- Each round gives a lock back, and makes no new work. -/
theorem Fits.length_le (s : table.Sound) {rounds : List Round} (h : table.Fits rounds) :
    rounds.length ≤ table.load := by
  induction rounds generalizing table with
  | nil => exact Nat.zero_le _
  | cons r rest ih =>
    obtain ⟨-, hheld, hrest⟩ := h
    have hlength := ih (s.run _) hrest
    have hrelease := load_release (s.run _) hheld
    have hpolls := load_run_le s r.polls
    have hround : table.run r.actions = ((table.run (r.polls.map .poll)).release r.lock).2 := by
      rw [Round.actions, run_concat]
      rfl
    rw [hround] at hlength
    rw [List.length_cons]
    omega

theorem fits_concat (rounds : List Round) (r : Round) (h : table.Fits rounds)
    (hs : (table.run (rounds.flatMap Round.actions ++ r.polls.map .poll)).Settled)
    (hl : (table.run (rounds.flatMap Round.actions ++ r.polls.map .poll)).isHeld r.lock) :
    table.Fits (rounds ++ [r]) := by
  induction rounds generalizing table with
  | nil => exact ⟨hs, hl, trivial⟩
  | cons first rest ih =>
    obtain ⟨hfirst, hheld, hrest⟩ := h
    rw [List.flatMap_cons, List.append_assoc, run_append] at hs hl
    exact ⟨hfirst, hheld, ih hrest hs hl⟩

/-- Who waits when actions begin that cancel nothing waits after them, or was granted by one. -/
theorem Sound.waiting_run (s : table.Sound) (hw : table.Waiting t) (actions : List LockAction)
    (hc : t ∉ history cancelling table actions) :
    (table.run actions).Waiting t ∨ t ∈ history granting table actions := by
  induction actions generalizing table with
  | nil => exact Or.inl hw
  | cons a rest ih =>
    rw [history, List.mem_append, not_or] at hc
    rw [history, List.mem_append]
    rcases s.waiting_act hw hc.1 with h | h
    · exact (ih (s.act a) h hc.2).imp id Or.inr
    · exact Or.inr (Or.inl h)

/-- Polls and releases cancel nothing. -/
theorem cancelling_eq_nil {actions : List LockAction}
    (h : ∀ a ∈ actions, (∃ t, a = .poll t) ∨ ∃ l, a = .release l) :
    history cancelling table actions = [] := by
  induction actions generalizing table with
  | nil => rfl
  | cons a rest ih =>
    rw [history, ih fun b hb => h b (List.mem_cons_of_mem a hb), List.append_nil]
    rcases h a List.mem_cons_self with ⟨t, rfl⟩ | ⟨l, rfl⟩ <;> rfl

/-! ## Runs -/

/-- **No deadlock.** After every run, when no acquire that waits can be granted, each of them
depends on one by which a lock is held. To have all who wait polled is enough to come to that point.
When from there on held locks are given back, with polls before each of them, this comes to an end,
and then all who waited have been granted. -/
theorem no_deadlock (actions : List LockAction) :
    ((run {} actions).Settled → ∀ t, (run {} actions).Waiting t →
      ∃ l u, (run {} actions).holder l = some u ∧
        Relation.TransGen (run {} actions).WaitsOn t u) ∧
    (∀ polls : List TicketId, (∀ t, (run {} actions).Waiting t → t ∈ polls) →
      ((run {} actions).run (polls.map .poll)).Settled) ∧
    (∀ rounds, (run {} actions).Fits rounds →
      rounds.length ≤ (run {} actions).load ∧
      ∀ polls, ((run {} actions).run
          (rounds.flatMap Round.actions ++ polls.map .poll)).Settled →
        (∃ l, (run {} actions).Fits (rounds ++ [⟨polls, l⟩])) ∨
        ∀ t, (run {} actions).Waiting t →
          t ∈ history granting (run {} actions)
            (rounds.flatMap Round.actions ++ polls.map .poll)) := by
  have s := sound_run actions
  refine ⟨fun hs t hw => s.depends hs hw, fun polls h => s.settled_run h, ?_⟩
  intro rounds hfit
  refine ⟨hfit.length_le s, fun polls hs => ?_⟩
  by_cases hheld : ∃ l, ((run {} actions).run
      (rounds.flatMap Round.actions ++ polls.map .poll)).isHeld l
  · obtain ⟨l, hl⟩ := hheld
    exact Or.inl ⟨l, fits_concat rounds ⟨polls, l⟩ hfit hs hl⟩
  · refine Or.inr fun t hw => ?_
    have hcancel : t ∉ history cancelling (run {} actions)
        (rounds.flatMap Round.actions ++ polls.map .poll) := by
      rw [cancelling_eq_nil]
      · exact List.not_mem_nil
      · intro a ha
        simp only [List.mem_append, List.mem_flatMap, Round.actions, List.mem_map,
          List.mem_singleton] at ha
        rcases ha with ⟨r, -, ⟨t, -, rfl⟩ | rfl⟩ | ⟨t, -, rfl⟩
        · exact Or.inl ⟨t, rfl⟩
        · exact Or.inr ⟨r.lock, rfl⟩
        · exact Or.inl ⟨t, rfl⟩
    refine (s.waiting_run hw _ hcancel).resolve_left fun h => hheld ?_
    obtain ⟨l, u, hl, -⟩ := (s.run _).depends hs h
    exact ⟨l, isHeld_iff_holder.mpr ⟨u, hl⟩⟩

/-- One acquire waits for a key of another one, which waits for a key of a held lock. -/
def chainedRun : List LockAction :=
  [.make [⟨["b"]⟩], .make [⟨["b"]⟩, ⟨["a"]⟩], .make [⟨["a"]⟩], .request 0, .poll 3, .request 1,
    .poll 4, .request 2, .poll 5]

/-- The three locks given back, one after the other. -/
def chainedRounds : List Round := [⟨[], 0⟩, ⟨[5, 4], 1⟩, ⟨[5], 2⟩]

theorem no_deadlock_on_chainedRun :
    (∃ l u, (run {} chainedRun).holder l = some u ∧
      Relation.TransGen (run {} chainedRun).WaitsOn 5 u) ∧
    chainedRounds.length ≤ (run {} chainedRun).load ∧
    5 ∈ history granting (run {} chainedRun) (chainedRounds.flatMap Round.actions) := by
  have hsettled : (run {} chainedRun).Settled := by decide +kernel
  have hwait : (run {} chainedRun).Waiting 5 := by decide +kernel
  have hfit : (run {} chainedRun).Fits chainedRounds := by decide +kernel
  have hend : ((run {} chainedRun).run
      (chainedRounds.flatMap Round.actions ++ [].map .poll)).Settled := by decide +kernel
  obtain ⟨hdepends, -, hrounds⟩ := no_deadlock chainedRun
  obtain ⟨hlength, hall⟩ := hrounds chainedRounds hfit
  refine ⟨hdepends hsettled 5 hwait, hlength, ?_⟩
  rcases hall [] hend with ⟨l, hmore⟩ | hgranted
  · have hload : (run {} chainedRun).load = 3 := by decide +kernel
    have hfour := (hrounds _ hmore).1
    rw [hload] at hfour
    simp [chainedRounds] at hfour
  · exact hgranted 5 hwait

end LockTable

end BlobStore
