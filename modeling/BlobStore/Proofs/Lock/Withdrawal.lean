import BlobStore.Proofs.Lock.Progress

/-!
# An acquire that is cancelled

An acquire that is cancelled while it waits is as if it had never come. It leaves every line, and
nobody else moves in one, so each key that belonged to it is handed to the first who waits behind
it. A key may have been handed to it without its knowing; that key is handed on like the others.
Locks are held as before until somebody is polled, and then those are granted who lacked nothing but
keys that belonged to the cancelled acquire.

## Main definitions

* `LockTable.Withdrawn`: what is left when one of those who wait has gone
* `LockTable.grantees`: the acquires that are granted by some polls

## Main results

* `LockTable.Sound.mutex_cancel`: the mutex of each key after an acquire was cancelled
* `LockTable.Sound.isHeld_polls`: which locks are held after some polls
* `LockTable.cancelled_disturbs_nobody`: cancelling an acquire after any run
-/

namespace BlobStore

namespace LockTable

variable {table : LockTable} {t u w : TicketId} {x y : Ticket} {l : LockId} {k : Key}
  {polls : List TicketId}

/-- The acquires that are granted when some are polled one after the other. -/
def grantees (table : LockTable) (polls : List TicketId) : List TicketId :=
  history granting table (polls.map .poll)

/-- The acquire `t`, which waited as `x`, is missing, and all others are as they were. -/
structure Withdrawn (t : TicketId) (x : Ticket) (before after : LockTable) : Prop where
  gone : after.tickets.get? t = none
  owns_nothing : ∀ k, ¬ after.Owns t k
  stands_nowhere : ∀ k, t ∉ after.line k
  collected : ∀ k ∈ x.taken, (before.mutex k).owner = some t
  /-- A key that belonged to it, be it that it had collected the key or that the key had been handed
  to it since its last poll, goes to the first who waits there, and is free if nobody does. -/
  handed : ∀ k, (before.mutex k).owner = some t →
    after.mutex k = ⟨(before.mutex k).queue.head?, (before.mutex k).queue.tail⟩
  kept : ∀ k, (before.mutex k).owner ≠ some t →
    after.mutex k = ⟨(before.mutex k).owner, (before.mutex k).queue.filter (· ≠ t)⟩
  line : ∀ k, after.line k = (before.line k).filter (· ≠ t)
  owns : ∀ u k, u ≠ t → (after.Owns u k ↔ before.Owns u k)
  tickets : ∀ u, u ≠ t → after.tickets.get? u = before.tickets.get? u
  isHeld : ∀ l, after.isHeld l = before.isHeld l
  /-- At its next poll an acquire is granted if nobody but `t` stood before it at its keys. -/
  next_poll : ∀ u y, u ≠ t → before.tickets.get? u = some y →
    ((after.poll u).1 = true ↔
      ∀ k ∈ y.remaining, ∀ w, ((before.line k).filter (· ≠ t)).head? = some w → w = u)
  isHeld_polls : ∀ polls l, (after.run (polls.map .poll)).isHeld l ↔
    before.isHeld l ∨ ∃ u ∈ after.grantees polls, u ≠ t ∧
      ∃ y, before.tickets.get? u = some y ∧ y.lock = l
  /-- Whoever is granted now had waited on nobody else. -/
  waitsOn : ∀ polls, ∀ u ∈ after.grantees polls, ∀ w, before.WaitsOn u w → w = t

/-! ## The mutexes -/

/-- A cancelled acquire leaves the mutex of every key, whether it was there or not. -/
theorem Sound.mutex_cancel (s : table.Sound) (ht : table.tickets.get? t = some x) (k : Key) :
    (table.cancel t).mutex k = (table.mutex k).leave t := by
  have hread : (table.cancel t).mutex k =
      Mutexes.read (Mutexes.leaveAll t (x.taken ++ x.remaining.take 1) table.mutexes) k := by
    simp only [mutex, LockTable.cancel, ht]
  rw [hread, Mutexes.read_leaveAll t (s.leaving_nodup ht)]
  split
  · rfl
  · rename_i hnot
    have hline : t ∉ table.line k := fun h => hnot (s.mem_leaving ht (s.mem_line h))
    obtain ⟨howner, hqueue⟩ := not_or.mp (mt Mutex.mem_line_iff.mpr hline)
    have hstay : (table.mutex k).queue.filter (· ≠ t) = (table.mutex k).queue := by
      apply List.filter_eq_self.mpr
      intro u hu
      have hne : u ≠ t := fun he => hqueue (he ▸ hu)
      simpa using hne
    rw [Mutex.leave, if_neg howner, hstay]
    rfl

/-! ## The polls that follow -/

@[simp] theorem grantees_nil (table : LockTable) : table.grantees [] = [] := rfl

theorem mem_grantees_cons : u ∈ table.grantees (t :: polls) ↔
    (u = t ∧ (table.poll t).1 = true) ∨ u ∈ (table.poll t).2.grantees polls := by
  simp only [grantees, List.map_cons, history, List.mem_append, mem_granting_iff]
  rfl

/-- Polls bring no acquires, and leave them on their locks. -/
theorem Sound.get?_of_poll (s : table.Sound) (h : (table.poll t).2.tickets.get? u = some x) :
    ∃ y, table.tickets.get? u = some y ∧ y.lock = x.lock :=
  (s.tickets_act (a := .poll t) h).resolve_right fun hr => by cases hr.1

/-- Those who are granted were there. -/
theorem Sound.exists_of_grantee (s : table.Sound) (h : u ∈ table.grantees polls) :
    ∃ y, table.tickets.get? u = some y := by
  induction polls generalizing table with
  | nil => simp at h
  | cons t rest ih =>
    rcases mem_grantees_cons.mp h with ⟨rfl, hgrant⟩ | h
    · by_contra hnot
      have hnone : table.tickets.get? u = none :=
        Option.eq_none_iff_forall_ne_some.mpr fun y hy => hnot ⟨y, hy⟩
      simp [LockTable.poll, hnone] at hgrant
    · obtain ⟨y, hy⟩ := ih (s.poll t) h
      obtain ⟨z, hz, -⟩ := s.get?_of_poll hy
      exact ⟨z, hz⟩

/-- Whoever lacks a key that belongs to another one is not granted by polls. -/
theorem Sound.not_mem_grantees_of_stuck (s : table.Sound) (h : table.Stuck u) :
    u ∉ table.grantees polls := by
  induction polls generalizing table with
  | nil => simp
  | cons t rest ih =>
    intro hu
    rcases mem_grantees_cons.mp hu with ⟨rfl, hgrant⟩ | hu
    · rw [s.stuck_iff.mp h] at hgrant
      cases hgrant
    · exact ih (s.poll t) (s.stuck_poll h t) hu

/-- A poll lets hold the lock of the acquire that it grants, and leaves the others as they are. -/
theorem Sound.isHeld_poll (s : table.Sound) (t : TicketId) (l : LockId) :
    (table.poll t).2.isHeld l ↔ table.isHeld l ∨
      ((table.poll t).1 = true ∧ ∃ x, table.tickets.get? t = some x ∧ x.lock = l) := by
  cases ht : table.tickets.get? t with
  | none => simp [LockTable.poll, ht]
  | some x =>
    obtain ⟨taken, remaining, v, hdone⟩ := s.advances ht
    rw [hdone]
    by_cases hr : remaining = []
    · obtain ⟨h, -, hlocks⟩ := v.granted hr
      by_cases hl : x.lock = l
      · subst hl
        simp [LockTable.isHeld, KeysLock.isHeld, hlocks, hr]
      · simp [LockTable.isHeld, hlocks, hl]
    · simp [LockTable.isHeld, v.waiting hr, hr]

/-- After some polls those locks are held that were held before, and those of whoever was
granted. -/
theorem Sound.isHeld_polls (s : table.Sound) (polls : List TicketId) (l : LockId) :
    (table.run (polls.map .poll)).isHeld l ↔ table.isHeld l ∨
      ∃ u ∈ table.grantees polls, ∃ y, table.tickets.get? u = some y ∧ y.lock = l := by
  induction polls generalizing table with
  | nil => simp [LockTable.run]
  | cons t rest ih =>
    have hrest := ih (s.poll t)
    rw [s.isHeld_poll t l] at hrest
    refine hrest.trans ⟨?_, ?_⟩
    · rintro ((hheld | ⟨hgrant, y, hy, hl⟩) | ⟨u, hu, y, hy, hl⟩)
      · exact Or.inl hheld
      · exact Or.inr ⟨t, mem_grantees_cons.mpr (Or.inl ⟨rfl, hgrant⟩), y, hy, hl⟩
      · obtain ⟨z, hz, hzl⟩ := s.get?_of_poll hy
        exact Or.inr ⟨u, mem_grantees_cons.mpr (Or.inr hu), z, hz, hzl.trans hl⟩
    · rintro (hheld | ⟨u, hu, y, hy, hl⟩)
      · exact Or.inl (Or.inl hheld)
      · rcases mem_grantees_cons.mp hu with ⟨rfl, hgrant⟩ | hu
        · exact Or.inl (Or.inr ⟨hgrant, y, hy, hl⟩)
        · obtain ⟨z, hz⟩ := (s.poll t).exists_of_grantee hu
          obtain ⟨y', hy', hzl⟩ := s.get?_of_poll hz
          obtain rfl : y = y' := Option.some.inj (hy.symm.trans hy')
          exact Or.inr ⟨u, hu, z, hz, hzl.symm.trans hl⟩

/-- An acquire is granted if nobody stands before it at the keys that it has still to take. -/
theorem Sound.granted_iff_first (s : table.Sound) (hu : table.tickets.get? u = some y) :
    (table.poll u).1 = true ↔ ∀ k ∈ y.remaining, ∀ w, (table.line k).head? = some w → w = u := by
  rw [← Bool.not_eq_false, s.not_granted_iff hu]
  have hfirst : ∀ k, (table.line k).head? = (table.mutex k).owner := fun k =>
    (s.serves k).head?_line
  simp only [hfirst]
  constructor
  · intro hnot k hk w hw
    by_contra hne
    exact hnot ⟨w, y, k, hu, hk, hne, hw⟩
  · rintro hall ⟨w, z, k, hz, hk, hne, hw⟩
    obtain rfl : y = z := Option.some.inj (hu.symm.trans hz)
    exact hne (hall k hk w hw)

/-! ## The acquire that is cancelled -/

theorem get?_cancel_of_ne (hne : u ≠ t) :
    (table.cancel t).tickets.get? u = table.tickets.get? u := by
  unfold cancel
  split
  · rfl
  · simp [hne.symm]

namespace Sound

variable (s : table.Sound) (ht : table.tickets.get? t = some x)

include s ht

theorem departs_cancelled : Departs [t] table (table.cancel t) := by
  have hd := s.departs_cancel t
  rwa [cancelling, ht, if_pos (by rfl)] at hd

theorem line_cancel (k : Key) : (table.cancel t).line k = (table.line k).filter (· ≠ t) := by
  simpa using (s.departs_cancelled ht).line k

/-- Whoever lacks a key of somebody else lacks it also when `t` has gone. -/
theorem waitsOn_cancel (hu : u ≠ t) (hw : w ≠ t) (h : table.WaitsOn u w) :
    (table.cancel t).WaitsOn u w := by
  obtain ⟨y, k, hy, hk, hne, ho⟩ := h
  refine ⟨y, k, (get?_cancel_of_ne hu).trans hy, hk, hne, ?_⟩
  have hother : (table.mutex k).owner ≠ some t := by
    rw [ho]
    exact fun he => hw (Option.some.inj he)
  rw [s.mutex_cancel ht, Mutex.leave, if_neg hother]
  exact ho

theorem withdrawn : Withdrawn t x table (table.cancel t) := by
  have sc := s.cancel t
  have hd := s.departs_cancelled ht
  have hgone : (table.cancel t).tickets.get? t = none := (cancel_tickets t).1
  have hstays : ∀ polls, ∀ u ∈ (table.cancel t).grantees polls, u ≠ t := by
    rintro polls u hu rfl
    obtain ⟨y, hy⟩ := sc.exists_of_grantee hu
    rw [hgone] at hy
    cases hy
  have hsame : ∀ l, (table.cancel t).isHeld l = table.isHeld l := by
    intro l
    unfold LockTable.isHeld
    rw [cancel_locks]
  refine ⟨hgone, ?owns_nothing, ?stands_nowhere, ?collected, ?handed, ?kept, s.line_cancel ht,
    ?owns, fun u hu => get?_cancel_of_ne hu, hsame, ?next_poll, ?isHeld_polls, ?waitsOn⟩
  case owns_nothing =>
    intro k hk
    exact ((hd.owns t k).mp hk).2 (List.mem_singleton_self t)
  case stands_nowhere =>
    intro k hk
    rw [s.line_cancel ht, List.mem_filter] at hk
    simpa using hk.2
  case collected =>
    intro k hk
    exact (s.serves k).owned t (Or.inl ⟨x, ht, hk⟩)
  case handed =>
    intro k hk
    rw [s.mutex_cancel ht, Mutex.leave, if_pos hk, Mutex.handOn]
  case kept =>
    intro k hk
    rw [s.mutex_cancel ht, Mutex.leave, if_neg hk]
  case owns =>
    intro u k hu
    rw [hd.owns, List.mem_singleton]
    exact and_iff_left hu
  case next_poll =>
    intro u y hu hy
    rw [sc.granted_iff_first ((get?_cancel_of_ne hu).trans hy)]
    simp only [s.line_cancel ht]
  case isHeld_polls =>
    intro polls l
    rw [sc.isHeld_polls, hsame]
    refine or_congr_right (exists_congr fun u => and_congr_right fun hu => ?_)
    rw [get?_cancel_of_ne (hstays polls u hu), and_iff_right (hstays polls u hu)]
  case waitsOn =>
    intro polls u hu w hw
    by_contra hne
    refine sc.not_mem_grantees_of_stuck (Or.inr ⟨w, ?_⟩) hu
    exact s.waitsOn_cancel ht (hstays polls u hu) hne hw

end Sound

/-- **A cancelled acquire.** After every run, whichever of the acquires that wait is cancelled: it
owns nothing and stands nowhere, each key that belonged to it is handed on, also one that it does
not know of, the others own what they owned and stand in their order, and the locks that are held
from then on without having been held before are those of acquires that had waited on no other. -/
theorem cancelled_disturbs_nobody (actions : List LockAction) {t : TicketId} {x : Ticket}
    (ht : (run {} actions).tickets.get? t = some x) :
    Withdrawn t x (run {} actions) ((run {} actions).cancel t) :=
  (sound_run actions).withdrawn ht

/-- The acquire 4 has taken two keys and was handed its third when the first lock was given back;
the acquires 5 and 6 stand behind it, at the third key and at the second. -/
def unawareRun : List LockAction :=
  [.make [⟨["a"]⟩, ⟨["b"]⟩, ⟨["c"]⟩], .make [⟨["c"]⟩], .make [⟨["b"]⟩], .request 1, .poll 3,
    .request 0, .poll 4, .request 1, .poll 5, .request 2, .poll 6, .release 1]

theorem unaware_disturbs_nobody :
    ((run {} unawareRun).mutex ⟨["c"]⟩).owner = some 4 ∧
      ((run {} unawareRun).cancel 4).mutex ⟨["a"]⟩ = {} ∧
      ((run {} unawareRun).cancel 4).mutex ⟨["b"]⟩ = ⟨some 6, []⟩ ∧
      ((run {} unawareRun).cancel 4).mutex ⟨["c"]⟩ = ⟨some 5, []⟩ ∧
      (((run {} unawareRun).cancel 4).run ([6, 5].map .poll)).isHeld 2 := by
  have hwaits : (run {} unawareRun).tickets.get? 4 =
      some ⟨0, [⟨["a"]⟩, ⟨["b"]⟩], [⟨["c"]⟩]⟩ := by decide +kernel
  have hqueues : [⟨["a"]⟩, ⟨["b"]⟩, ⟨["c"]⟩].map (run {} unawareRun).mutex =
      [⟨some 4, []⟩, ⟨some 4, [6]⟩, ⟨some 4, [5]⟩] := by decide +kernel
  have hgranted : 6 ∈ ((run {} unawareRun).cancel 4).grantees [6, 5] := by decide +kernel
  have hother : (run {} unawareRun).tickets.get? 6 = some ⟨2, [], [⟨["b"]⟩]⟩ := by decide +kernel
  simp only [List.map_cons, List.map_nil, List.cons.injEq, and_true] at hqueues
  obtain ⟨ha, hb, hc⟩ := hqueues
  have h := cancelled_disturbs_nobody unawareRun hwaits
  refine ⟨by rw [hc], ?_, ?_, ?_, (h.isHeld_polls [6, 5] 2).mpr (Or.inr ?_)⟩
  · rw [h.handed _ (by rw [ha]), ha]
    rfl
  · rw [h.handed _ (by rw [hb]), hb]
    rfl
  · rw [h.handed _ (by rw [hc]), hc]
    rfl
  · exact ⟨6, hgranted, by decide, _, hother, rfl⟩

end LockTable

end BlobStore
