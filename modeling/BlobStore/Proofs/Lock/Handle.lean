import BlobStore.Proofs.Lock.Frame
import BlobStore.Proofs.Lock.History

/-!
# Many acquires of one lock

A lock may be acquired again while it is held, by any number of acquires at once. If it covers some
key, each of them has to wait until the lock has been given back: an acquire is granted only while
nobody holds the lock, and every grant is given back once before the next. A lock that covers no
key has nothing to wait for, so a grant of it may overwrite another.

## Main definitions

* `LockTable.turns`: the grants of a lock in a run, and the releases that gave it back
* `LockTable.Alternate`: each grant is given back before the next

## Main results

* `LockTable.Sound.not_held_of_granted`: a lock over some key is granted only while it is not held
* `LockTable.one_holder_at_a_time`: grants and successful releases of such a lock alternate
-/

namespace BlobStore

namespace LockTable

variable {table : LockTable} {t : TicketId} {x : Ticket} {l : LockId} {a : LockAction}

/-! ## One grant and one release -/

theorem keysOf_eq {h : KeysLock} (hl : table.locks.get? l = some h) : table.keysOf l = h.keys := by
  simp [keysOf, hl]

theorem exists_of_keysOf (h : table.keysOf l ≠ []) : ∃ lock, table.locks.get? l = some lock := by
  unfold keysOf at h
  split at h
  · exact ⟨_, by assumption⟩
  · exact absurd rfl h

/-- A lock over some key has kept its keys in an action, or is made by it. -/
theorem Sound.keysOf_of_act (s : table.Sound) (h : (table.act a).keysOf l ≠ []) :
    table.keysOf l = (table.act a).keysOf l ∨ ∃ keys, a = .make keys ∧ l = table.fresh := by
  obtain ⟨lock, hl⟩ := exists_of_keysOf h
  rcases s.locks_act hl with ⟨before, hbefore, hkeys⟩ | ⟨keys, hmake, hfresh, -⟩
  · exact Or.inl (by rw [keysOf_eq hl, keysOf_eq hbefore, hkeys])
  · exact Or.inr ⟨keys, hmake, hfresh⟩

theorem holder_eq_none_of_not_held (h : table.isHeld l = false) : table.holder l = none := by
  refine Option.eq_none_iff_forall_ne_some.mpr fun t ht => ?_
  rw [isHeld_iff_holder.mpr ⟨t, ht⟩] at h
  cases h

namespace Sound

variable (s : table.Sound)

include s

/-- Whoever is granted a lock over some key finds it not held: whoever held it would own the keys
that are granted. -/
theorem not_held_of_granted (ht : table.tickets.get? t = some x) (hgrant : (table.poll t).1 = true)
    (hkeys : table.keysOf x.lock ≠ []) : table.isHeld x.lock = false := by
  obtain ⟨h, hl, hk⟩ := s.ticket_keys t x ht
  obtain ⟨taken, remaining, v, hdone⟩ := s.advances ht
  obtain rfl := hdone.mp hgrant
  rw [keysOf_eq hl, ← hk] at hkeys
  obtain ⟨k, hmem⟩ := List.exists_mem_of_ne_nil _ hkeys
  by_contra hheld
  obtain ⟨g, hg, howns⟩ :=
    s.owns_of_isHeld hl (by simpa [isHeld, hl] using hheld)
  have hbefore : table.Owns g.ticket k := howns k (hk ▸ hmem)
  have hafter : (table.poll t).2.Owns t k := by
    rw [v.owns]
    rcases List.mem_append.mp hmem with hmem | hmem
    · exact Or.inl (Or.inl ⟨x, ht, hmem⟩)
    · exact Or.inr ⟨rfl, by rw [← v.split] at hmem; simpa using hmem⟩
  have hsame : g.ticket = t :=
    ((s.poll t).serves k).owner_unique ((v.owns g.ticket k).mpr (Or.inl hbefore)) hafter
  exact s.grant_ne ht hl hg hsame

/-- Whoever is granted a lock holds it. -/
theorem holder_of_granted (ht : table.tickets.get? t = some x) (hgrant : (table.poll t).1 = true) :
    (table.poll t).2.holder x.lock = some t := by
  obtain ⟨taken, remaining, v, hdone⟩ := s.advances ht
  obtain ⟨h, -, hlocks⟩ := v.granted (hdone.mp hgrant)
  simp [holder, hlocks]

end Sound

/-- A release succeeds exactly if the lock is held. -/
theorem release_ok_iff : (table.release l).1 = .ok () ↔ table.isHeld l := by
  unfold release isHeld KeysLock.isHeld
  split
  · simp_all
  · rename_i h hl
    cases hg : h.held <;> simp [hl, hg]

/-- A lock is not held after a release, whether this succeeds or not. -/
theorem holder_release (table : LockTable) (l : LockId) : (table.release l).2.holder l = none := by
  unfold release
  split
  · simp [holder, *]
  · split <;> simp [holder, *]

/-! ## Turns -/

/-- What becomes of a lock: it is granted, or what was granted is given back. -/
inductive Turn
  | granted (ticket : TicketId)
  | returned (ticket : TicketId)
deriving DecidableEq, Repr

/-- The turn of a lock in an action. A release that fails is none. -/
def turning (l : LockId) (table : LockTable) : LockAction → List Turn
  | .poll t =>
    if (table.poll t).1 ∧ (table.tickets.get? t).map Ticket.lock = some l then [.granted t] else []
  | .release l' => if l' = l then (table.holder l).toList.map .returned else []
  | .make _ | .request _ | .cancel _ | .discard _ => []

/-- The turns of a lock in a run. -/
abbrev turns (l : LockId) : List LockAction → List Turn := history (turning l) {}

/-- Each grant is given back before the next; the last one may still be there. -/
inductive Alternate : List Turn → Option TicketId → Prop
  | nil : Alternate [] none
  | grant {before : List Turn} (h : Alternate before none) (t : TicketId) :
    Alternate (before ++ [.granted t]) (some t)
  | giveBack {before : List Turn} {t : TicketId} (h : Alternate before (some t)) :
    Alternate (before ++ [.returned t]) none

/-- A lock that is still to be made is not held. -/
theorem Sound.holder_fresh (s : table.Sound) : table.holder table.fresh = none := by
  have hnone : table.locks.get? table.fresh = none :=
    Option.eq_none_iff_forall_ne_some.mpr fun h hl => Nat.lt_irrefl _ (s.lock_lt _ h hl)
  simp [holder, hnone]

/-- Locks that are not there have no turns. -/
theorem Sound.turning_eq_nil (s : table.Sound) (hl : table.locks.get? l = none) (a : LockAction) :
    turning l table a = [] := by
  cases a with
  | poll t =>
    refine if_neg ?_
    rintro ⟨-, ht⟩
    obtain ⟨x, hx, rfl⟩ := Option.map_eq_some_iff.mp ht
    obtain ⟨h, hlock, -⟩ := s.ticket_keys t x hx
    rw [hl] at hlock
    cases hlock
  | release l' => simp [turning, holder, hl]
  | _ => rfl

/-- A number that was not given out has had no turn. -/
theorem turns_eq_nil (actions : List LockAction) (h : (run {} actions).fresh ≤ l) :
    turns l actions = [] := by
  induction actions using run_induction with
  | nil => rfl
  | concat actions a s ih =>
    rw [run_concat] at h
    have hle : (run {} actions).fresh ≤ l := Nat.le_trans (s.fresh_le a) h
    have hnone : (run {} actions).locks.get? l = none := by
      refine Option.eq_none_iff_forall_ne_some.mpr fun lock hl => ?_
      exact absurd (s.lock_lt l lock hl) (Nat.not_lt.mpr hle)
    have hbefore : history (turning l) {} actions = [] := ih hle
    rw [turns, history_concat, hbefore, s.turning_eq_nil hnone]
    rfl

/-- A lock without a turn is held as it was, unless it is dropped. -/
theorem Sound.holder_of_no_turn (s : table.Sound) (hturn : turning l table a = [])
    (hthere : ((table.act a).locks.get? l).isSome) : (table.act a).holder l = table.holder l := by
  have hsame (h : (table.act a).locks.get? l = table.locks.get? l) :
      (table.act a).holder l = table.holder l := by
    unfold holder
    rw [h]
  cases a with
  | make keys =>
    by_cases he : l = table.fresh
    · subst he
      rw [s.holder_fresh]
      simp [holder, LockTable.act, get?_make]
    · exact hsame ((keeps_make table keys).locks l he)
  | request l' =>
    apply hsame
    simp only [LockTable.act]
    split <;> rfl
  | poll t =>
    cases ht : table.tickets.get? t with
    | none => simp [LockTable.act, LockTable.poll, ht]
    | some x =>
      rcases s.poll_cases ht with ⟨keeps, ⟨h, -, hgrant, -⟩ | ⟨-, hlocks, -⟩⟩
      · refine hsame (keeps.locks l ?_)
        rintro rfl
        simp [turning, hgrant, ht] at hturn
      · exact hsame (congrArg (·.get? l) hlocks)
  | cancel t => exact hsame (congrArg (·.get? l) (cancel_locks t))
  | release l' =>
    by_cases he : l' = l
    · subst he
      have hnone : table.holder l' = none := by simpa [turning] using hturn
      simp [LockTable.act, holder_release, hnone]
    · exact hsame ((keeps_release table l').locks l (Ne.symm he))
  | discard l' =>
    simp only [LockTable.act, get?_discard] at hthere hsame ⊢
    by_cases he : l' = l
    · simp [he] at hthere
    · exact hsame (if_neg he)

/-- An action adds its turn to those that alternate. -/
theorem Sound.alternate_act (s : table.Sound) {before : List Turn}
    (h : Alternate before (table.holder l)) (hkeys : (table.act a).keysOf l ≠ []) :
    Alternate (before ++ turning l table a) ((table.act a).holder l) := by
  by_cases hturn : turning l table a = []
  · have hthere := Option.isSome_iff_exists.mpr (exists_of_keysOf hkeys)
    rw [hturn, List.append_nil, s.holder_of_no_turn hturn hthere]
    exact h
  · cases a with
    | poll t =>
      have hgrant : (table.poll t).1 ∧ (table.tickets.get? t).map Ticket.lock = some l := by
        by_contra hnot
        exact hturn (if_neg hnot)
      obtain ⟨x, ht, rfl⟩ := Option.map_eq_some_iff.mp hgrant.2
      have hfree : table.isHeld x.lock = false := by
        refine s.not_held_of_granted ht hgrant.1 ?_
        rcases s.keysOf_of_act hkeys with he | ⟨keys, hmake, -⟩
        · exact he ▸ hkeys
        · cases hmake
      have hone : turning x.lock table (.poll t) = [.granted t] := if_pos hgrant
      rw [holder_eq_none_of_not_held hfree] at h
      rw [hone]
      show Alternate (before ++ [.granted t]) ((table.poll t).2.holder x.lock)
      rw [s.holder_of_granted ht hgrant.1]
      exact h.grant t
    | release l' =>
      obtain rfl : l' = l := by
        by_contra hne
        exact hturn (if_neg hne)
      have hr : turning l' table (.release l') = (table.holder l').toList.map .returned :=
        if_pos rfl
      cases hh : table.holder l' with
      | none => simp [hr, hh] at hturn
      | some t =>
        rw [hr, hh]
        show Alternate (before ++ [.returned t]) ((table.release l').2.holder l')
        rw [holder_release]
        exact (hh ▸ h).giveBack
    | make keys => exact absurd rfl hturn
    | request l' => exact absurd rfl hturn
    | cancel t => exact absurd rfl hturn
    | discard l' => exact absurd rfl hturn

/-! ## Runs -/

/-- The grants of a lock over some key and the releases that give it back alternate in every run,
and the lock is held by the last grant that has not been given back. -/
theorem alternate_turns (actions : List LockAction) (l : LockId)
    (hkeys : (run {} actions).keysOf l ≠ []) :
    Alternate (turns l actions) ((run {} actions).holder l) := by
  induction actions using run_induction with
  | nil => simp [run, keysOf] at hkeys
  | concat actions a s ih =>
    rw [run_concat] at hkeys ⊢
    rw [turns, history_concat]
    refine s.alternate_act ?_ hkeys
    rcases s.keysOf_of_act hkeys with he | ⟨keys, rfl, rfl⟩
    · exact ih (he ▸ hkeys)
    · have hempty : history (turning (run {} actions).fresh) {} actions = [] :=
        turns_eq_nil actions (Nat.le_refl _)
      rw [s.holder_fresh, hempty]
      exact .nil

/-- **One holder at a time.** After every run, of a lock over some key: its grants and its
successful releases alternate, from the first grant to the one by which it is held now; an acquire
is granted only if the lock is not held, and holds it then; and a release succeeds exactly if the
lock is held, and leaves it not held. -/
theorem one_holder_at_a_time (actions : List LockAction) (l : LockId)
    (hkeys : (run {} actions).keysOf l ≠ []) :
    Alternate (turns l actions) ((run {} actions).holder l) ∧
      (∀ t x, (run {} actions).tickets.get? t = some x → x.lock = l →
        ((run {} actions).poll t).1 = true →
          (run {} actions).isHeld l = false ∧ ((run {} actions).poll t).2.holder l = some t) ∧
      (((run {} actions).release l).1 = .ok () ↔ (run {} actions).isHeld l) ∧
      ((run {} actions).release l).2.isHeld l = false := by
  have s := sound_run actions
  refine ⟨alternate_turns actions l hkeys, ?granted, release_ok_iff, ?released⟩
  case granted =>
    rintro t x ht rfl hgrant
    exact ⟨s.not_held_of_granted ht hgrant hkeys, s.holder_of_granted ht hgrant⟩
  case released =>
    by_contra hheld
    obtain ⟨t, ht⟩ := isHeld_iff_holder.mp (by simpa using hheld)
    rw [holder_release] at ht
    cases ht

/-- Four acquires of one lock over two keys: the first is granted and given back, the second is
cancelled while it waits, and the third is granted before the fourth was polled. -/
def crowdedRun : List LockAction :=
  [.make [⟨["a"]⟩, ⟨["b"]⟩], .request 0, .request 0, .request 0, .poll 1, .poll 2, .poll 3,
    .request 0, .cancel 2, .release 0, .release 0, .poll 3]

theorem one_holder_on_crowdedRun :
    turns 0 crowdedRun = [.granted 1, .returned 1, .granted 3] ∧
      Alternate (turns 0 crowdedRun) ((run {} crowdedRun).holder 0) ∧
      ((run {} crowdedRun).poll 4).1 = false := by
  have hturns : turns 0 crowdedRun = [.granted 1, .returned 1, .granted 3] := by decide +kernel
  have hkeys : (run {} crowdedRun).keysOf 0 ≠ [] := by decide +kernel
  have hwaits : (run {} crowdedRun).tickets.get? 4 = some ⟨0, [], [⟨["a"]⟩, ⟨["b"]⟩]⟩ := by
    decide +kernel
  have hheld : (run {} crowdedRun).isHeld 0 = true := by decide +kernel
  obtain ⟨halternate, hgranted, -⟩ := one_holder_at_a_time crowdedRun 0 hkeys
  refine ⟨hturns, halternate, Bool.eq_false_iff.mpr fun hgrant => ?_⟩
  rw [(hgranted 4 _ hwaits rfl hgrant).1] at hheld
  cases hheld

/-- A lock over no key, held by one acquire, with another one under way. -/
def emptyRun : List LockAction := [.make [], .request 0, .poll 1, .request 0]

/-- A lock over no key is granted while it is held, and the first grant is never given back. -/
theorem empty_lock_granted_while_held :
    (run {} emptyRun).holder 0 = some 1 ∧ (run {} emptyRun).tickets.get? 2 = some ⟨0, [], []⟩ ∧
      ((run {} emptyRun).poll 2).1 = true ∧ ((run {} emptyRun).poll 2).2.holder 0 = some 2 ∧
      turns 0 (emptyRun ++ [.poll 2, .release 0, .release 0]) =
        [.granted 1, .granted 2, .returned 2] := by
  decide +kernel

end LockTable

end BlobStore
