import BlobStore.Proofs.Content
import BlobStore.Proofs.Memory
import BlobStore.Proofs.Observation
import Mathlib.Data.List.Nodup
import Mathlib.Data.List.TakeWhile

/-!
# Listings of a memory

A listing reads the stored keys in ascending order, from its scope on, and stops at the first that
does not start with the scope. Nothing is missed by stopping there: the keys that start with the
scope stand next to each other, and none of them stands before it. So a listing gives what a search
of all keys gives, when this is put in order.

## Main definitions

* `Memory.Stores`: which keys have a value

## Main results

* `Memory.Sorted.keys_eq_stretch`: where the keys that start with a scope stand
* `Memory.exists_stores`: every set of keys is stored after some requests
* `Memory.list_eq_sort_filter`: a listing against a search of all stored keys
-/

namespace BlobStore

namespace Memory

/-- Those keys have a value, and no others. -/
def Stores (m : Memory) (stored : List Key) : Prop := ∀ k, k ∈ stored ↔ (m.contents k).isSome

/-! ## The scan -/

/-- The keys from `scope` on, up to the first that does not start with it. -/
def stretch (scope : Key) (m : Memory) : List Key :=
  (m.values.keys.dropWhile (· < scope)).takeWhile (·.startsWith scope)

theorem nested_eq_stretch (scope : Key) (m : Memory) :
    m.nested scope = (m.stretch scope).filter (· ≠ scope) := rfl

/-- The keys that start with `scope` stand next to each other. Those before them are below `scope`,
and those behind them do not start with it. -/
theorem Sorted.keys_eq_stretch {m : Memory} (h : m.Sorted) (scope : Key) :
    ∃ before behind, m.values.keys = before ++ (m.stretch scope ++ behind) ∧
      (∀ k ∈ before, k < scope) ∧ (∀ k ∈ m.stretch scope, k.startsWith scope) ∧
      ∀ k ∈ before ++ behind, ¬ k.startsWith scope := by
  let rest := m.values.keys.dropWhile (· < scope)
  have hsorted : rest.Pairwise (· < ·) := h.sublist (List.dropWhile_sublist _)
  have hfrom : ∀ k ∈ rest, ¬ k < scope := fun k hk => ((mem_dropWhile_iff h scope k).mp hk).2
  have hbelow : ∀ k ∈ m.values.keys.takeWhile (· < scope), k < scope := by
    intro k hk
    simpa using List.mem_takeWhile_imp hk
  refine ⟨m.values.keys.takeWhile (· < scope), rest.dropWhile (·.startsWith scope), ?_, hbelow,
    fun k hk => ((mem_takeWhile_iff hsorted hfrom k).mp hk).2, ?_⟩
  · show _ = _ ++ (rest.takeWhile (·.startsWith scope) ++ rest.dropWhile (·.startsWith scope))
    rw [List.takeWhile_append_dropWhile, List.takeWhile_append_dropWhile]
  · intro k hk hstart
    rcases List.mem_append.mp hk with hk | hk
    · exact Key.not_lt_of_startsWith hstart (hbelow k hk)
    · have hin : k ∈ rest.takeWhile (·.startsWith scope) :=
        (mem_takeWhile_iff hsorted hfrom k).mpr ⟨(List.dropWhile_sublist _).subset hk, hstart⟩
      have hnodup := Key.nodup_of_pairwise hsorted
      rw [← List.takeWhile_append_dropWhile (p := (·.startsWith scope)) (l := rest)] at hnodup
      exact List.disjoint_of_nodup_append hnodup hin hk

/-- So the scan gives what a search of all keys gives. -/
theorem Sorted.nested_eq_filter {m : Memory} (h : m.Sorted) (scope : Key) :
    m.nested scope = m.values.keys.filter fun k => k.startsWith scope ∧ k ≠ scope := by
  obtain ⟨before, behind, hkeys, -, hin, hout⟩ := h.keys_eq_stretch scope
  have hnone : ∀ keys : List Key, (∀ k ∈ keys, ¬ k.startsWith scope) →
      keys.filter (fun k => k.startsWith scope ∧ k ≠ scope) = [] := by
    intro keys hkeys
    apply List.filter_eq_nil_iff.mpr
    intro k hk
    simp [hkeys k hk]
  have hall : (m.stretch scope).filter (fun k => k.startsWith scope ∧ k ≠ scope) =
      (m.stretch scope).filter (· ≠ scope) := by
    apply List.filter_congr
    intro k hk
    simp [hin k hk]
  rw [hkeys, List.filter_append, List.filter_append, hall,
    hnone before fun k hk => hout k (List.mem_append_left _ hk),
    hnone behind fun k hk => hout k (List.mem_append_right _ hk), List.nil_append, List.append_nil,
    nested_eq_stretch]

/-! ## The stored keys -/

/-- A memory that was used through its requests is in order. -/
theorem sorted_after (clock : Nat → Time) (requests : List Request) :
    (backend.after clock requests 0 empty).Sorted :=
  backend.after_induction clock (P := fun _ m => m.Sorted)
    (fun r _ _ now _ h => h.answer r now) OrderedMap.sorted_empty

/-- Whatever the set of keys, there are requests after which it is stored. -/
theorem exists_stores (clock : Nat → Time) (stored : List Key) :
    ∃ requests, (backend.after clock requests 0 empty).Stores stored := by
  have hsaves : ∀ (keys : List Key) (n : Nat) (m : Memory) (k : Key),
      ((backend.after clock (keys.map (.save · (Content.ofBytes []))) n m).contents k).isSome ↔
        k ∈ keys ∨ (m.contents k).isSome := by
    intro keys
    induction keys with
    | nil => simp [Backend.after]
    | cons key rest ih =>
      intro n m k
      have hstep := contents_answer (.save key (Content.ofBytes [])) (clock n) m
      simp only [List.map_cons, Backend.after, ih, List.mem_cons]
      simp only [backend, hstep, Request.effect, Content.drain_ofBytes, Function.update_apply]
      by_cases hk : k = key <;> simp [hk]
  refine ⟨stored.map (.save · (Content.ofBytes [])), fun k => ?_⟩
  rw [hsaves stored 0 empty k]
  simp

/-- **A listing is exact.** Every set of keys can be stored, and whenever it is what is stored, in
whatever order and way this came about, a listing answers with the keys of the set that start with
the scope and are not the scope, in ascending order and each once, and changes nothing. -/
theorem list_eq_sort_filter (clock : Nat → Time) (scope : Key) {stored : List Key}
    (hn : stored.Nodup) :
    (∃ requests, (backend.after clock requests 0 empty).Stores stored) ∧
      ∀ requests now, (backend.after clock requests 0 empty).Stores stored →
        (backend.after clock requests 0 empty).answer (.list scope) now =
          (.ok (Key.sort (stored.filter fun k => k.startsWith scope ∧ k ≠ scope)),
            backend.after clock requests 0 empty) ∧
        (Key.sort (stored.filter fun k => k.startsWith scope ∧ k ≠ scope)).Pairwise (· < ·) := by
  refine ⟨exists_stores clock stored, fun requests now hstored => ?_⟩
  have h := sorted_after clock requests
  generalize backend.after clock requests 0 empty = m at h hstored
  have hp : (stored.filter fun k => k.startsWith scope ∧ k ≠ scope).Perm (m.nested scope) := by
    rw [h.nested_eq_filter]
    refine List.Perm.filter _ ?_
    refine (List.perm_ext_iff_of_nodup hn (Key.nodup_of_pairwise h)).mpr fun k => ?_
    rw [hstored k, mem_keys_iff]
  refine ⟨?_, Key.sort_pairwise_lt (hn.filter _)⟩
  rw [Key.sort_eq_of_perm hp (h.nested_pairwise scope)]
  rfl

/-- The root key, empty segments, and siblings that share leading characters. -/
def siblings : List Key :=
  [⟨["dir11", "x"]⟩, ⟨["dir1", "b"]⟩, ⟨[]⟩, ⟨["dir1", ""]⟩, ⟨["dir1"]⟩, ⟨["dir1", "", "a"]⟩,
    ⟨["dir", "1"]⟩, ⟨["dir1!"]⟩]

/-- A value saved under each. -/
def siblingSaves : List Request := siblings.map (.save · (.ofBytes [1]))

theorem list_siblings :
    ((backend.after (⟨·⟩) siblingSaves 0 empty).answer (.list ⟨["dir1"]⟩) ⟨9⟩).1 =
      .ok [⟨["dir1", ""]⟩, ⟨["dir1", "", "a"]⟩, ⟨["dir1", "b"]⟩] := by
  have hn : siblings.Nodup := by decide +kernel
  have hkeys : siblings.Perm (backend.after (⟨·⟩) siblingSaves 0 empty).values.keys := by
    decide +kernel
  have hstored : (backend.after (⟨·⟩) siblingSaves 0 empty).Stores siblings := fun k => by
    rw [hkeys.mem_iff, mem_keys_iff]
  have hsort : Key.sort (siblings.filter fun k => k.startsWith ⟨["dir1"]⟩ ∧ k ≠ ⟨["dir1"]⟩) =
      [⟨["dir1", ""]⟩, ⟨["dir1", "", "a"]⟩, ⟨["dir1", "b"]⟩] := by decide +kernel
  have hlist := (list_eq_sort_filter (⟨·⟩) ⟨["dir1"]⟩ hn).2 siblingSaves ⟨9⟩ hstored
  rw [hlist.1, hsort]

end Memory

end BlobStore
