import BlobStore.Lock.Table
import BlobStore.Proofs.Order
import Mathlib.Data.List.Nodup

/-!
# What a mutex serves

A mutex that was forgotten and a mutex that nobody owns or waits for behave alike, so the mutexes of
a table are read as one for every key, the missing ones being free. Seen so, pruning changes
nothing, and a key is changed only by those who claim it or leave it.

## Main definitions

* `Mutexes.read`: the mutex of a key, free if there is none
* `Mutex.Serves`: the owner and the queue fit those who own and those who await the key

## Main results

* `Mutexes.read_prune`: pruning is not seen
* `Mutexes.read_leaveAll`, `Mutexes.collect_spec`: what leaving and collecting keys change
* `Mutex.Serves.take`, `Mutex.Serves.enqueue`, `Mutex.Serves.leave`: claims and departures are
  served
-/

namespace BlobStore

/-! ## One mutex -/

namespace Mutex

theorem isIdle_iff {m : Mutex} : m.isIdle ↔ m = {} := by
  obtain ⟨owner, queue⟩ := m
  simp [isIdle]

theorem leave_free (t : TicketId) : ({} : Mutex).leave t = {} := by simp [leave]

theorem claim_owner_iff {m : Mutex} {t : TicketId} :
    (m.claim t).owner = some t ↔ m.owner = none ∨ m.owner = some t := by
  obtain ⟨owner, queue⟩ := m
  cases owner with
  | none => simp [claim]
  | some u =>
    unfold claim
    by_cases h : u = t ∨ t ∈ queue <;> simp [h]

/-- Who owns a mutex and who waits in its queue, against those who own its key and those whose
next key it is. One who was handed the mutex owns it before it knows. -/
structure Serves (owns awaits : TicketId → Prop) (m : Mutex) : Prop where
  owned : ∀ t, owns t → m.owner = some t
  owner : ∀ t, m.owner = some t → owns t ∨ awaits t
  queued : ∀ t, t ∈ m.queue → awaits t
  nodup : m.queue.Nodup
  apart : ∀ t, m.owner = some t → t ∉ m.queue
  free : m.owner = none → m.queue = []

namespace Serves

variable {owns awaits owns' awaits' : TicketId → Prop} {m : Mutex} {t : TicketId}

theorem unowned (h : ∀ t, ¬ owns t) : Serves owns awaits {} where
  owned t ht := absurd ht (h t)
  owner t ht := by simp at ht
  queued t ht := by simp at ht
  nodup := List.nodup_nil
  apart t ht := by simp at ht
  free _ := rfl

theorem mono (h : Serves owns awaits m) (ho : ∀ t, owns' t ↔ owns t)
    (ha : ∀ t, awaits t → awaits' t) : Serves owns' awaits' m where
  owned t ht := h.owned t ((ho t).mp ht)
  owner t ht := (h.owner t ht).imp (ho t).mpr (ha t)
  queued t ht := ha t (h.queued t ht)
  nodup := h.nodup
  apart := h.apart
  free := h.free

/-- A key has one owner. -/
theorem owner_unique (h : Serves owns awaits m) {u : TicketId} (ht : owns t) (hu : owns u) :
    t = u :=
  Option.some.inj ((h.owned t ht).symm.trans (h.owned u hu))

/-- A claim that is granted: from now on `t` owns the key and awaits it no longer. -/
theorem take (h : Serves owns awaits m) (ht : (m.claim t).owner = some t) :
    Serves (fun u => owns u ∨ u = t) (fun u => awaits u ∧ u ≠ t) (m.claim t) := by
  rcases claim_owner_iff.mp ht with hm | hm
  · have hq := h.free hm
    have hc : m.claim t = ⟨some t, []⟩ := by
      obtain ⟨owner, queue⟩ := m
      cases hm
      simpa [claim] using hq
    rw [hc]
    refine ⟨?owned, ?owner, by simp, List.nodup_nil, by simp, by simp⟩
    case owned =>
      rintro u (hu | rfl)
      · exact absurd (hm.symm.trans (h.owned u hu)) (by simp)
      · rfl
    case owner =>
      intro u hu
      exact Or.inl (Or.inr (Option.some.inj hu).symm)
  · have hc : m.claim t = m := by
      obtain ⟨owner, queue⟩ := m
      cases hm
      simp [claim]
    rw [hc]
    refine ⟨?owned, ?owner, ?queued, h.nodup, h.apart, h.free⟩
    case owned =>
      rintro u (hu | rfl)
      · exact h.owned u hu
      · exact hm
    case owner =>
      intro u hu
      exact Or.inl (Or.inr (Option.some.inj (hu.symm.trans hm)))
    case queued =>
      intro u hu
      refine ⟨h.queued u hu, ?_⟩
      rintro rfl
      exact h.apart u hm hu

/-- A claim that is not granted: `t` awaits the key. -/
theorem enqueue (h : Serves owns awaits m) (ht : (m.claim t).owner ≠ some t) :
    Serves owns (fun u => awaits u ∨ u = t) (m.claim t) := by
  obtain ⟨owner, queue⟩ := m
  have hm := (not_or.mp (mt claim_owner_iff.mpr ht))
  cases owner with
  | none => exact absurd rfl hm.1
  | some u =>
    have hut : u ≠ t := fun he => hm.2 (congrArg some he)
    by_cases hq : t ∈ queue
    · have hc : (⟨some u, queue⟩ : Mutex).claim t = ⟨some u, queue⟩ := by simp [claim, hq]
      rw [hc]
      exact h.mono (fun _ => Iff.rfl) (fun _ => Or.inl)
    · have hc : (⟨some u, queue⟩ : Mutex).claim t = ⟨some u, queue ++ [t]⟩ := by
        simp [claim, hut, hq]
      rw [hc]
      refine ⟨h.owned, fun v hv => (h.owner v hv).imp_right Or.inl, ?queued, ?nodup, ?apart,
        by simp⟩
      case queued =>
        intro v hv
        rcases List.mem_append.mp hv with hv | hv
        · exact Or.inl (h.queued v hv)
        · exact Or.inr (List.mem_singleton.mp hv)
      case nodup =>
        exact List.Nodup.append h.nodup (List.nodup_singleton t) (List.disjoint_singleton.mpr hq)
      case apart =>
        intro v hv hmem
        obtain rfl : u = v := Option.some.inj hv
        rcases List.mem_append.mp hmem with hmem | hmem
        · exact h.apart u rfl hmem
        · exact hut (List.mem_singleton.mp hmem)

/-- An owner hands the mutex on to the first in the queue. -/
theorem handOn (h : Serves owns awaits m) (hm : m.owner = some t) :
    Serves (fun u => owns u ∧ u ≠ t) (fun u => awaits u ∧ u ≠ t)
      ⟨m.queue.head?, m.queue.tail⟩ := by
  have hne : ∀ u, u ∈ m.queue → u ≠ t := by
    rintro u hu rfl
    exact h.apart u hm hu
  have hlast : ∀ u, ¬ (owns u ∧ u ≠ t) := by
    intro u hu
    exact hu.2 (Option.some.inj ((h.owned u hu.1).symm.trans hm))
  cases hq : m.queue with
  | nil => exact unowned hlast
  | cons v rest =>
    have hd := h.nodup
    rw [hq] at hd hne
    have hv : v ∈ m.queue := by simp [hq]
    refine ⟨?owned, ?owner, ?queued, (List.nodup_cons.mp hd).2, ?apart, by simp⟩
    case owned =>
      intro u hu
      exact absurd hu (hlast u)
    case owner =>
      intro u hu
      obtain rfl : v = u := Option.some.inj hu
      exact Or.inr ⟨h.queued v hv, hne v (by simp)⟩
    case queued =>
      intro u hu
      have hu' : u ∈ m.queue := by rw [hq]; exact List.mem_cons_of_mem _ hu
      exact ⟨h.queued u hu', hne u (List.mem_cons_of_mem _ hu)⟩
    case apart =>
      intro u hu
      obtain rfl : v = u := Option.some.inj hu
      exact (List.nodup_cons.mp hd).1

/-- One who does not own the mutex only leaves the queue. -/
theorem unqueue (h : Serves owns awaits m) (hm : m.owner ≠ some t) :
    Serves (fun u => owns u ∧ u ≠ t) (fun u => awaits u ∧ u ≠ t)
      { m with queue := m.queue.filter (· ≠ t) } := by
  have hmem : ∀ u, u ∈ m.queue.filter (· ≠ t) → u ∈ m.queue ∧ u ≠ t := by
    intro u hu
    simpa using hu
  refine ⟨fun u hu => h.owned u hu.1, ?owner, ?queued, h.nodup.filter _, ?apart, ?free⟩
  case owner =>
    intro u hu
    have hut : u ≠ t := by
      rintro rfl
      exact hm hu
    exact (h.owner u hu).imp (⟨·, hut⟩) (⟨·, hut⟩)
  case queued =>
    intro u hu
    exact ⟨h.queued u (hmem u hu).1, (hmem u hu).2⟩
  case apart =>
    intro u hu hq
    exact h.apart u hu (hmem u hq).1
  case free =>
    intro hn
    simp [h.free hn]

/-- A departure: `t` neither owns nor awaits the key any more. -/
theorem leave (h : Serves owns awaits m) (t : TicketId) :
    Serves (fun u => owns u ∧ u ≠ t) (fun u => awaits u ∧ u ≠ t) (m.leave t) := by
  by_cases hm : m.owner = some t
  · have hl : m.leave t = ⟨m.queue.head?, m.queue.tail⟩ := by
      simp [Mutex.leave, Mutex.handOn, hm]
    rw [hl]
    exact h.handOn hm
  · have hl : m.leave t = { m with queue := m.queue.filter (· ≠ t) } := by
      simp [Mutex.leave, hm]
    rw [hl]
    exact h.unqueue hm

end Serves

end Mutex

/-! ## The mutexes of all keys -/

namespace Mutexes

/-- The mutex of a key; one that is not there is free. -/
def read (ms : Mutexes) (k : Key) : Mutex := (ms.get? k).getD {}

theorem read_put (ms : Mutexes) (k j : Key) (m : Mutex) :
    read (ms.put k m) j = if k = j then m else read ms j := by
  unfold read
  rw [OrderedMap.get?_put]
  split <;> rfl

theorem read_alter_leave (ms : Mutexes) (t : TicketId) (k j : Key) :
    read (ms.alter k (·.leave t)) j = if k = j then (read ms j).leave t else read ms j := by
  unfold read
  rw [OrderedMap.get?_alter]
  split
  · cases ms.get? j with
    | none => exact (Mutex.leave_free t).symm
    | some m => rfl
  · rfl

/-- Departures are seen at the keys that are left. -/
theorem read_leaveAll (t : TicketId) {keys : List Key} (hk : keys.Nodup) (ms : Mutexes) (j : Key) :
    read (leaveAll t keys ms) j = if j ∈ keys then (read ms j).leave t else read ms j := by
  unfold leaveAll
  induction keys generalizing ms with
  | nil => simp
  | cons k rest ih =>
    obtain ⟨hkr, hr⟩ := List.nodup_cons.mp hk
    rw [List.foldl_cons, ih hr, read_alter_leave]
    by_cases hj : k = j
    · subst hj
      simp [hkr]
    · simp [hj, Ne.symm hj]

theorem read_forget (ms : Mutexes) (k j : Key) : read (forget ms k) j = read ms j := by
  unfold forget
  split
  · rename_i m hm
    split
    · rename_i hi
      unfold read
      rw [OrderedMap.get?_erase]
      split
      · rename_i he
        subst he
        rw [hm]
        exact (Mutex.isIdle_iff.mp hi).symm
      · rfl
    · rfl
  · rfl

/-- What pruning forgets is free, and a missing mutex is free as well. -/
theorem read_prune (keys : List Key) (ms : Mutexes) (j : Key) :
    read (prune keys ms) j = read ms j := by
  unfold prune
  induction keys generalizing ms with
  | nil => rfl
  | cons k rest ih => rw [List.foldl_cons, ih, read_forget]

/-- The keys that a request takes are a first part of those it comes to. It claims them and the
next one, which somebody else owns. -/
structure Collected (t : TicketId) (keys : List Key) (ms : Mutexes) (taken remaining : List Key)
    (after : Mutexes) : Prop where
  split : taken ++ remaining = keys
  claimed : ∀ j, read after j =
    if j ∈ taken ∨ remaining.head? = some j then (read ms j).claim t else read ms j
  granted : ∀ j, j ∈ taken → ((read ms j).claim t).owner = some t
  refused : ∀ j, remaining.head? = some j → ((read ms j).claim t).owner ≠ some t

namespace Collected

variable {t : TicketId} {k : Key} {rest taken remaining : List Key} {ms after : Mutexes}

/-- The first key is taken, and then some of the others; their claims do not touch it. -/
theorem take_first (hkr : k ∉ rest) (hm : ((read ms k).claim t).owner = some t)
    (h : Collected t rest (ms.put k ((read ms k).claim t)) taken remaining after) :
    Collected t (k :: rest) ms (k :: taken) remaining after := by
  have hrest : ∀ j, j ∈ rest → read (ms.put k ((read ms k).claim t)) j = read ms j := by
    intro j hj
    have hne : k ≠ j := by
      rintro rfl
      exact hkr hj
    rw [read_put, if_neg hne]
  have htaken : ∀ j, j ∈ taken → j ∈ rest := by
    intro j hj
    exact h.split ▸ List.mem_append_left _ hj
  have hnext : ∀ j, remaining.head? = some j → j ∈ rest := by
    intro j hj
    exact h.split ▸ List.mem_append_right _ (List.mem_of_head? hj)
  refine ⟨congrArg (k :: ·) h.split, ?claimed, ?granted, ?refused⟩
  case claimed =>
    intro j
    rw [h.claimed j, read_put]
    by_cases hj : k = j
    · subst hj
      rw [if_neg (not_or.mpr ⟨mt (htaken k) hkr, mt (hnext k) hkr⟩), if_pos rfl,
        if_pos (Or.inl List.mem_cons_self)]
    · rw [if_neg hj]
      simp only [List.mem_cons, Ne.symm hj, false_or]
  case granted =>
    intro j hj
    rcases List.mem_cons.mp hj with rfl | hj
    · exact hm
    · exact hrest j (htaken j hj) ▸ h.granted j hj
  case refused =>
    intro j hj
    exact hrest j (hnext j hj) ▸ h.refused j hj

/-- The first key is refused, and the others are not claimed. -/
theorem refuse_first (hm : ((read ms k).claim t).owner ≠ some t) :
    Collected t (k :: rest) ms [] (k :: rest) (ms.put k ((read ms k).claim t)) := by
  refine ⟨rfl, ?claimed, by simp, ?refused⟩
  case claimed =>
    intro j
    rw [read_put]
    by_cases hj : k = j
    · subst hj
      simp
    · simp [hj]
  case refused =>
    intro j hj
    obtain rfl : k = j := by simpa using hj
    exact hm

end Collected

theorem collect_spec (t : TicketId) {keys : List Key} (hk : keys.Nodup) (ms : Mutexes) :
    Collected t keys ms (collect t keys ms).1 (collect t keys ms).2.1 (collect t keys ms).2.2 := by
  induction keys generalizing ms with
  | nil => exact ⟨rfl, by simp [collect], by simp [collect], by simp [collect]⟩
  | cons k rest ih =>
    obtain ⟨hkr, hr⟩ := List.nodup_cons.mp hk
    unfold collect
    simp only
    split
    · rename_i hm
      exact (ih hr _).take_first hkr hm
    · rename_i hm
      exact .refuse_first hm

end Mutexes

end BlobStore
