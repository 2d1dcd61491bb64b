import BlobStore.Proofs.Lock.Progress
import BlobStore.Proofs.Transaction.Release

/-!
# Locks with one request each

Where every lock of a table is made for one request, and all of them are known, the table can be
read off the list of those who asked: who holds a lock owns its keys alone, and a request whose keys
nobody else has asked for is granted by its next poll.

## Main definitions

* `Seat`: a lock with its one request, and the keys that it is over
* `LockTable.Seated`: a table whose locks are those of a list of seats

## Main results

* `LockTable.Seated.run`, `LockTable.Seated.enter`: what keeps a table seated
* `LockTable.Seated.disjoint`: locks that are held together have no key in common
* `LockTable.Seated.granted`: a request for keys that nobody else has asked for is granted
-/

namespace BlobStore

/-- A lock over keys, with the one request for it. -/
structure Seat where
  lock : LockId
  ticket : TicketId
  keys : List Key

namespace LockTable

variable {table : LockTable} {l : LockId} {t u : TicketId} {k : Key} {a : LockAction}

/-! ## Owners and new requests -/

/-- A key belongs to a request for a lock that covers it: it holds the lock, or waits for it. -/
theorem Sound.lock_of_owner (s : table.Sound) (ho : (table.mutex k).owner = some u) :
    ∃ l h, table.locks.get? l = some h ∧ k ∈ h.keys ∧
      (table.holder l = some u ∨ ∃ y, table.tickets.get? u = some y ∧ y.lock = l) := by
  have hwaits : ∀ y, table.tickets.get? u = some y → k ∈ y.taken ++ y.remaining →
      ∃ l h, table.locks.get? l = some h ∧ k ∈ h.keys ∧
        (table.holder l = some u ∨ ∃ y, table.tickets.get? u = some y ∧ y.lock = l) := by
    intro y hy hk
    obtain ⟨h, hl, hkeys⟩ := s.ticket_keys u y hy
    exact ⟨y.lock, h, hl, hkeys ▸ hk, Or.inr ⟨y, hy, rfl⟩⟩
  rcases (s.serves k).owner u ho with (⟨y, hy, hk⟩ | ⟨l, h, g, hl, hg, he, hk⟩) | ⟨y, hy, hk⟩
  · exact hwaits y hy (List.mem_append_left _ hk)
  · have hkeys := s.grant_keys l h g hl hg
    exact ⟨l, h, hl, hkeys ▸ hk, Or.inl (holder_eq_some_iff.mpr ⟨h, g, hl, hg, he⟩)⟩
  · exact hwaits y hy (List.mem_append_right _ (List.mem_of_head? hk))

/-- A lock made, and a request for it. -/
theorem request_make_eq (table : LockTable) (keys : List Key) :
    ((table.make keys).2.request table.fresh).2 =
      table.run [.make keys, .request table.fresh] := by
  simp [LockTable.run, LockTable.act, get?_make table keys]

/-! ## Seats -/

/-- Every lock of the table is the lock of a seat, and is held by nobody but the request of the
seat. -/
structure Seated (seats : List Seat) (table : LockTable) : Prop where
  sound : table.Sound
  reserved : ∀ seat ∈ seats, table.Reserved seat.lock seat.ticket
  holder : ∀ seat ∈ seats, ∀ t, table.holder seat.lock = some t → t = seat.ticket
  covers : ∀ seat ∈ seats, ∀ h, table.locks.get? seat.lock = some h →
    ∀ k, k ∈ h.keys ↔ k ∈ seat.keys
  known : ∀ l h, table.locks.get? l = some h → ∃ seat ∈ seats, seat.lock = l
  apart : seats.Pairwise fun a b => a.lock ≠ b.lock ∧ a.ticket ≠ b.ticket

namespace Seated

variable {seats : List Seat} {seat other : Seat}

theorem empty : Seated [] {} where
  sound := sound_empty
  reserved := nofun
  holder := nofun
  covers := nofun
  known _ _ hl := nomatch hl
  apart := List.Pairwise.nil

/-- What is done with the locks that are there needs no other seats. -/
theorem act (h : Seated seats table) (hm : ∀ keys, a ≠ .make keys) (hr : ∀ l, a ≠ .request l) :
    Seated seats (table.act a) where
  sound := h.sound.act a
  reserved seat hs := (h.reserved seat hs).act (hr seat.lock)
  holder seat hs t ht := by
    rcases h.sound.holder_act ht with ht | ⟨-, -, x, hx, hlock⟩
    · exact h.holder seat hs t ht
    · exact ((h.reserved seat hs).tickets t x hx).mp hlock
  covers seat hs lock hl k := by
    rcases h.sound.locks_act hl with ⟨before, hbefore, hkeys⟩ | ⟨keys, he, -⟩
    · rw [hkeys]
      exact h.covers seat hs before hbefore k
    · exact absurd he (hm keys)
  known l lock hl := by
    rcases h.sound.locks_act hl with ⟨before, hbefore, -⟩ | ⟨keys, he, -⟩
    · exact h.known l before hbefore
    · exact absurd he (hm keys)
  apart := h.apart

theorem run (h : Seated seats table) {actions : List LockAction}
    (ha : ∀ a ∈ actions, (∀ keys, a ≠ .make keys) ∧ ∀ l, a ≠ .request l) :
    Seated seats (table.run actions) := by
  induction actions generalizing table with
  | nil => exact h
  | cons a rest ih =>
    obtain ⟨hm, hr⟩ := ha a List.mem_cons_self
    exact ih (h.act hm hr) fun b hb => ha b (List.mem_cons_of_mem a hb)

/-- A new lock with its request takes a seat. -/
theorem enter (h : Seated seats table) (keys : List Key) :
    Seated (seats ++ [⟨table.fresh, table.fresh + 1, keys⟩])
      ((table.make keys).2.request table.fresh).2 := by
  have hmade := get?_make table keys
  have hnew : ∀ seat ∈ seats, seat.lock ≠ table.fresh ∧ seat.ticket ≠ table.fresh + 1 := by
    intro seat hs
    have hreserved := h.reserved seat hs
    exact ⟨Nat.ne_of_lt hreserved.lock_lt, Nat.ne_of_lt (Nat.lt_succ_of_lt hreserved.ticket_lt)⟩
  have hsplit : ∀ seat, seat ∈ seats ++ [⟨table.fresh, table.fresh + 1, keys⟩] →
      seat ∈ seats ∨ seat = ⟨table.fresh, table.fresh + 1, keys⟩ := by
    intro seat hs
    rcases List.mem_append.mp hs with hs | hs
    · exact Or.inl hs
    · exact Or.inr (List.mem_singleton.mp hs)
  have hlocks : ∀ l, ((table.make keys).2.request table.fresh).2.locks.get? l =
      if table.fresh = l then some ⟨Key.ordered keys, none⟩ else table.locks.get? l := by
    intro l
    exact OrderedMap.get?_put table.locks table.fresh l _
  refine ⟨h.sound.make keys |>.request hmade, ?reserved, ?holder, ?covers, ?known, ?apart⟩
  case reserved =>
    intro seat hs
    rcases hsplit seat hs with hs | rfl
    · rw [request_make_eq]
      exact ((h.reserved seat hs).act (a := .make keys) (by simp)).act
        (a := .request table.fresh) (by simpa using Ne.symm (hnew seat hs).1)
    · exact h.sound.reserved keys
  case holder =>
    intro seat hs t ht
    unfold LockTable.holder at ht
    rw [hlocks] at ht
    rcases hsplit seat hs with hs | rfl
    · rw [if_neg (Ne.symm (hnew seat hs).1)] at ht
      exact h.holder seat hs t ht
    · simp at ht
  case covers =>
    intro seat hs lock hl k
    rw [hlocks] at hl
    rcases hsplit seat hs with hs | rfl
    · rw [if_neg (Ne.symm (hnew seat hs).1)] at hl
      exact h.covers seat hs lock hl k
    · rw [if_pos rfl] at hl
      cases hl
      exact Key.mem_ordered
  case known =>
    intro l lock hl
    rw [hlocks] at hl
    split at hl
    · exact ⟨_, List.mem_append_right _ (List.mem_singleton_self _), ‹_›⟩
    · obtain ⟨seat, hs, he⟩ := h.known l lock hl
      exact ⟨seat, List.mem_append_left _ hs, he⟩
  case apart =>
    refine List.pairwise_append.mpr ⟨h.apart, List.pairwise_singleton _ _, ?_⟩
    intro seat hs other ho
    rw [List.mem_singleton.mp ho]
    exact hnew seat hs

/-- Two seats have nothing in common. -/
theorem ne (h : Seated seats table) {i j : Nat} (hi : seats[i]? = some seat)
    (hj : seats[j]? = some other) (hij : i ≠ j) :
    seat.lock ≠ other.lock ∧ seat.ticket ≠ other.ticket := by
  obtain ⟨hi', rfl⟩ := List.getElem?_eq_some_iff.mp hi
  obtain ⟨hj', rfl⟩ := List.getElem?_eq_some_iff.mp hj
  have hpairs := List.pairwise_iff_getElem.mp h.apart
  rcases Nat.lt_or_gt_of_ne hij with hlt | hlt
  · exact hpairs i j hi' hj' hlt
  · exact (hpairs j i hj' hi' hlt).imp Ne.symm Ne.symm

variable (h : Seated seats table)

include h

theorem mem_keysOf (hs : seat ∈ seats) (hheld : table.isHeld seat.lock) (hk : k ∈ seat.keys) :
    k ∈ table.keysOf seat.lock := by
  obtain ⟨t, ht⟩ := isHeld_iff_holder.mp hheld
  obtain ⟨lock, -, hl, -⟩ := holder_eq_some_iff.mp ht
  simp only [keysOf, hl]
  exact (h.covers seat hs lock hl k).mpr hk

/-- Locks that are held together have no key in common. -/
theorem disjoint (hs : seat ∈ seats) (ho : other ∈ seats) (hne : seat.lock ≠ other.lock)
    (hheld : table.isHeld seat.lock) (hother : table.isHeld other.lock) :
    seat.keys.Disjoint other.keys := fun _ hk hk' =>
  h.sound.not_both_held hne (h.mem_keysOf hs hheld hk) (h.mem_keysOf ho hother hk')
    ⟨hheld, hother⟩

/-- A request is granted by its next poll if none of its keys is a key of another lock that is
there. -/
theorem granted (hs : seat ∈ seats) (hwaits : (table.tickets.get? seat.ticket).isSome)
    (hfree : ∀ other ∈ seats, other.lock ≠ seat.lock → (table.locks.get? other.lock).isSome →
      seat.keys.Disjoint other.keys) : (table.poll seat.ticket).1 = true := by
  obtain ⟨x, hx⟩ := Option.isSome_iff_exists.mp hwaits
  have hlock : x.lock = seat.lock := ((h.reserved seat hs).tickets _ x hx).mpr rfl
  by_contra hnot
  obtain ⟨u, y, k, hy, hk, hne, ho⟩ :=
    (h.sound.not_granted_iff hx).mp (Bool.eq_false_iff.mpr hnot)
  obtain rfl : x = y := Option.some.inj (hx.symm.trans hy)
  obtain ⟨own, hown, hkeys⟩ := h.sound.ticket_keys _ x hx
  have hmine : k ∈ seat.keys :=
    (h.covers seat hs own (hlock ▸ hown) k).mp (hkeys ▸ List.mem_append_right _ hk)
  obtain ⟨l, lock, hl, hkl, hfor⟩ := h.sound.lock_of_owner ho
  obtain ⟨other, hother, rfl⟩ := h.known l lock hl
  have hothers : other.lock ≠ seat.lock := by
    intro he
    rcases hfor with hheld | ⟨z, hz, hzl⟩
    · exact hne (h.holder seat hs u (he ▸ hheld))
    · exact hne (((h.reserved seat hs).tickets u z hz).mp (hzl.trans he))
  exact hfree other hother hothers (Option.isSome_iff_exists.mpr ⟨lock, hl⟩) hmine
    ((h.covers other hother lock hl k).mp hkl)

end Seated

end LockTable

end BlobStore
