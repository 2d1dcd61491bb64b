import BlobStore.Memory
import BlobStore.Proofs.Key

/-!
# What a memory stores

The contents of a memory are its values without their times. What a request makes of them, and what
it answers apart from instants, depends on the contents of the keys that it names alone.

## Main definitions

* `Contents`, `Memory.contents`: the bytes under every key
* `Request.effect`: the contents after a request
* `Request.timeless`: an answer without the instants in it

## Main results

* `Memory.contents_answer`: a memory changes its contents as the request says
* `Memory.answer_congr`: memories with the same contents of the named keys answer alike
* `Memory.mem_nested`, `Memory.nested_pairwise`: a listing holds the keys under its scope, ascending
-/

namespace BlobStore

/-! ## Contents -/

/-- The bytes of the value under a key, if there is one. -/
abbrev Contents := Key → Option Bytes

/-- The contents after a request. A save whose content fails changes nothing, and so does a move of
a value that is not there. -/
def Request.effect : Request → Contents → Contents
  | .save key content, c =>
    match content.drain with
    | .ok bytes => Function.update c key (some bytes)
    | .error _ => c
  | .move source destination, c =>
    match c source with
    | some bytes => Function.update (Function.update c source none) destination (some bytes)
    | none => c
  | .delete key, c => Function.update c key none
  | .contains _, c | .list _, c | .value _, c | .metadata _, c => c

/-- The keys that a request names. -/
def Request.named : Request → List Key
  | .move source destination => [source, destination]
  | .contains key | .list key | .save key _ | .value key | .delete key | .metadata key => [key]

/-- A request leaves the keys alone that it does not name. -/
theorem Request.effect_of_not_mem {r : Request} {k : Key} (h : k ∉ r.named) (c : Contents) :
    r.effect c k = c k := by
  cases r with
  | save key content =>
    have hk : k ≠ key := by simpa [named] using h
    simp only [effect]
    cases content.drain with
    | ok bytes => exact Function.update_of_ne hk _ _
    | error e => rfl
  | move source destination =>
    obtain ⟨hs, hd⟩ : k ≠ source ∧ k ≠ destination := by simpa [named] using h
    simp only [effect]
    cases c source with
    | some bytes => simp [hs, hd]
    | none => rfl
  | delete key =>
    have hk : k ≠ key := by simpa [named] using h
    exact Function.update_of_ne hk _ _
  | contains _ | list _ | value _ | metadata _ => rfl

/-- What a request makes of a key depends on that key and on the keys that the request names. -/
theorem Request.effect_congr {r : Request} {c c' : Contents} (h : ∀ k ∈ r.named, c k = c' k)
    {k : Key} (hk : c k = c' k) : r.effect c k = r.effect c' k := by
  cases r with
  | save key content =>
    simp only [effect]
    cases content.drain with
    | ok bytes => simp only [Function.update_apply, hk]
    | error e => exact hk
  | move source destination =>
    have hs : c source = c' source := h source (by simp [named])
    simp only [effect, ← hs]
    cases c source with
    | some bytes => simp only [Function.update_apply, hk]
    | none => exact hk
  | delete key => simp only [effect, Function.update_apply, hk]
  | contains _ | list _ | value _ | metadata _ => exact hk

/-! ## Answers without instants -/

/-- An attribute whose instant, if it is one, does not matter. -/
def AttributeValue.timeless : AttributeValue → AttributeValue
  | .bytes count => .bytes count
  | .time _ => .time ⟨0⟩

/-- Attributes whose instants do not matter; which of them are known still does. -/
def Meta.timeless (m : Meta) : Meta where
  size? := m.size?.map AttributeValue.timeless
  created? := m.created?.map AttributeValue.timeless
  modified? := m.modified?.map AttributeValue.timeless
  accessed? := m.accessed?.map AttributeValue.timeless

/-- An answer whose instants do not matter. -/
def Request.timeless : (r : Request) → r.Answer → r.Answer
  | .metadata _, m => m.timeless
  | .contains _, b => b
  | .list _, nested => nested
  | .save _ _, done | .move _ _, done | .delete _, done => done
  | .value _, content => content

namespace Memory

/-- The contents of a memory. -/
def contents (m : Memory) : Contents := fun k => (m.values.get? k).map (·.bytes)

@[simp] theorem contents_empty (k : Key) : empty.contents k = none := rfl

@[simp] theorem isSome_contents (m : Memory) (k : Key) :
    (m.contents k).isSome = m.values.contains k := by
  simp [contents, OrderedMap.contains]

theorem contents_put (values : OrderedMap Key StoredValue) (key : Key) (v : StoredValue) :
    contents ⟨values.put key v⟩ = Function.update (contents ⟨values⟩) key (some v.bytes) := by
  funext k
  unfold contents
  rw [OrderedMap.get?_put]
  by_cases hk : key = k
  · simp [hk]
  · simp [hk, Ne.symm hk]

theorem contents_erase (values : OrderedMap Key StoredValue) (key : Key) :
    contents ⟨values.erase key⟩ = Function.update (contents ⟨values⟩) key none := by
  funext k
  unfold contents
  rw [OrderedMap.get?_erase]
  by_cases hk : key = k
  · simp [hk]
  · simp [hk, Ne.symm hk]

/-- The contents of a memory change as the request says. -/
theorem contents_answer (r : Request) (now : Time) (m : Memory) :
    (m.answer r now).2.contents = r.effect m.contents := by
  cases r with
  | contains _ | list _ | metadata _ => rfl
  | save key content =>
    simp only [answer, Request.effect]
    cases content.drain with
    | ok bytes => exact contents_put m.values key _
    | error e => rfl
  | value key =>
    simp only [answer, Request.effect]
    split
    · rename_i v hv
      rw [contents_put]
      exact Function.update_eq_self_iff.mpr (by simp [contents, hv])
    · rfl
  | move source destination =>
    simp only [answer, rename, Request.effect, contents]
    cases m.values.get? source with
    | none => rfl
    | some old =>
      have he := contents_put (m.values.erase source) destination
        ⟨old.bytes, old.created, now, now⟩
      rw [contents_erase] at he
      exact he
  | delete key =>
    simp only [answer, Request.effect]
    split
    · exact contents_erase m.values key
    · rename_i hk
      have hn : m.contents key = none := by
        rw [← Option.not_isSome_iff_eq_none, isSome_contents]
        exact hk
      exact (Function.update_eq_self_iff.mpr hn.symm).symm

/-- A request that fails leaves a memory as it was. -/
theorem answer_of_error {r : Request} {now : Time} {m : Memory} {e : StorageError}
    (h : (m.answer r now).1.result = .error e) : (m.answer r now).2 = m := by
  cases r with
  | contains _ | list _ | metadata _ => rfl
  | save key content =>
    simp only [answer] at h ⊢
    cases hc : content.drain with
    | error e => rfl
    | ok bytes => simp [hc, Reply.ok] at h
  | value key =>
    simp only [answer] at h ⊢
    cases hv : m.values.get? key with
    | none => rfl
    | some v => simp [hv, Reply.ok] at h
  | move source destination =>
    simp only [answer] at h ⊢
    cases hm : m.rename source destination now with
    | none => rfl
    | some after => simp [hm, Reply.ok] at h
  | delete key =>
    simp only [answer] at h ⊢
    split
    · rename_i hc
      simp [hc, Reply.ok] at h
    · rfl

theorem describe_timeless (v : StoredValue) :
    (describe v).timeless =
      ⟨some (.bytes v.bytes.length), some (.time ⟨0⟩), some (.time ⟨0⟩), some (.time ⟨0⟩)⟩ := rfl

/-- Where the contents of memories are the same, either has no value or both have one of the same
bytes. -/
theorem get?_of_contents_eq {m m' : Memory} {k k' : Key} (h : m.contents k = m'.contents k') :
    (m.values.get? k = none ∧ m'.values.get? k' = none) ∨
      ∃ v v', m.values.get? k = some v ∧ m'.values.get? k' = some v' ∧ v.bytes = v'.bytes := by
  unfold contents at h
  cases hv : m.values.get? k with
  | none =>
    rw [hv] at h
    exact Or.inl ⟨rfl, Option.map_eq_none_iff.mp h.symm⟩
  | some v =>
    rw [hv] at h
    obtain ⟨v', hv', hb⟩ := Option.map_eq_some_iff.mp h.symm
    exact Or.inr ⟨v, v', rfl, hv', hb.symm⟩

/-- Memories with the same contents of the keys that a request names answer it alike, at any two
times, unless it asks for a listing. -/
theorem answer_congr {r : Request} {m m' : Memory} (hr : ∀ scope, r ≠ .list scope)
    (h : ∀ k ∈ r.named, m.contents k = m'.contents k) (now now' : Time) :
    (m.answer r now).1.result.map r.timeless = (m'.answer r now').1.result.map r.timeless := by
  cases r with
  | list scope => exact absurd rfl (hr scope)
  | save key content =>
    simp only [answer]
    cases content.drain <;> rfl
  | contains key =>
    have hk := h key (by simp [Request.named])
    simp only [answer, ← isSome_contents, hk]
  | value key =>
    rcases get?_of_contents_eq (h key (by simp [Request.named])) with
      ⟨hv, hv'⟩ | ⟨v, v', hv, hv', hb⟩
    · simp only [answer, hv, hv']
    · simp only [answer, hv, hv', hb]
  | move source destination =>
    rcases get?_of_contents_eq (h source (by simp [Request.named])) with
      ⟨hv, hv'⟩ | ⟨v, v', hv, hv', -⟩
    · simp only [answer, rename, hv, hv']
    · simp only [answer, rename, hv, hv']
  | delete key =>
    rcases get?_of_contents_eq (h key (by simp [Request.named])) with
      ⟨hv, hv'⟩ | ⟨v, v', hv, hv', -⟩
    · simp [answer, OrderedMap.contains, hv, hv']
    · simp [answer, OrderedMap.contains, hv, hv']
  | metadata key =>
    rcases get?_of_contents_eq (h key (by simp [Request.named])) with
      ⟨hv, hv'⟩ | ⟨v, v', hv, hv', hb⟩
    · simp only [answer, hv, hv']
    · simp [answer, hv, hv', Reply.orNotFound, Reply.ok, Except.map, Request.timeless,
        describe_timeless, hb]

/-! ## Listings -/

/-- The keys of a memory stand in ascending order, each once. -/
abbrev Sorted (m : Memory) : Prop := m.values.Sorted

theorem Sorted.answer {m : Memory} (h : m.Sorted) (r : Request) (now : Time) :
    (m.answer r now).2.Sorted := by
  cases r with
  | contains _ | list _ | metadata _ => exact h
  | save key content =>
    simp only [Memory.answer]
    cases content.drain with
    | ok bytes => exact h.put _ _
    | error e => exact h
  | value key =>
    simp only [Memory.answer]
    split
    · exact h.put _ _
    · exact h
  | move source destination =>
    simp only [Memory.answer, rename]
    cases m.values.get? source with
    | some old => exact (h.erase source).put _ _
    | none => exact h
  | delete key =>
    simp only [Memory.answer]
    split
    · exact h.erase key
    · exact h

theorem mem_keys_iff (m : Memory) (k : Key) : k ∈ m.values.keys ↔ (m.contents k).isSome := by
  rw [isSome_contents]
  exact OrderedMap.mem_keys_iff m.values k

/-- What is left of ascending keys from `scope` on. -/
theorem mem_dropWhile_iff {keys : List Key} (h : keys.Pairwise (· < ·)) (scope k : Key) :
    k ∈ keys.dropWhile (· < scope) ↔ k ∈ keys ∧ ¬ k < scope := by
  induction keys with
  | nil => simp
  | cons x rest ih =>
    obtain ⟨hx, hr⟩ := List.pairwise_cons.mp h
    by_cases hlt : x < scope
    · rw [List.dropWhile_cons_of_pos (by simpa using hlt), ih hr, List.mem_cons]
      constructor
      · rintro ⟨hm, hk⟩
        exact ⟨Or.inr hm, hk⟩
      · rintro ⟨rfl | hm, hk⟩
        · exact absurd hlt hk
        · exact ⟨hm, hk⟩
    · rw [List.dropWhile_cons_of_neg (by simpa using hlt)]
      refine ⟨fun hm => ⟨hm, ?_⟩, And.left⟩
      rcases List.mem_cons.mp hm with rfl | hm
      · exact hlt
      · exact fun hk => hlt (Key.lt_trans (hx k hm) hk)

/-- Of ascending keys that do not stand before `scope`, those that start with it come first. -/
theorem mem_takeWhile_iff {keys : List Key} (h : keys.Pairwise (· < ·)) {scope : Key}
    (hs : ∀ k ∈ keys, ¬ k < scope) (k : Key) :
    k ∈ keys.takeWhile (·.startsWith scope) ↔ k ∈ keys ∧ k.startsWith scope := by
  induction keys with
  | nil => simp
  | cons x rest ih =>
    obtain ⟨hx, hr⟩ := List.pairwise_cons.mp h
    have hrest := fun k hk => hs k (List.mem_cons_of_mem x hk)
    by_cases hstart : x.startsWith scope
    · rw [List.takeWhile_cons_of_pos (by exact hstart), List.mem_cons, List.mem_cons, ih hr hrest]
      constructor
      · rintro (rfl | ⟨hm, hk⟩)
        · exact ⟨Or.inl rfl, hstart⟩
        · exact ⟨Or.inr hm, hk⟩
      · rintro ⟨rfl | hm, hk⟩
        · exact Or.inl rfl
        · exact Or.inr ⟨hm, hk⟩
    · rw [List.takeWhile_cons_of_neg (by exact hstart)]
      refine ⟨fun hm => by simp at hm, ?_⟩
      rintro ⟨hm, hk⟩
      rcases List.mem_cons.mp hm with rfl | hm
      · exact absurd hk hstart
      -- a key between `scope` and one that starts with it starts with it too
      · have hxs := hs x List.mem_cons_self
        exact absurd (Key.startsWith_of_between hxs (Key.le_of_lt (hx k hm)) hk) hstart

/-- A listing holds the stored keys under its scope. -/
theorem Sorted.mem_nested {m : Memory} (h : m.Sorted) (scope k : Key) :
    k ∈ m.nested scope ↔ (m.contents k).isSome ∧ k.Under scope := by
  unfold nested
  rw [List.mem_filter, mem_takeWhile_iff, mem_dropWhile_iff h, mem_keys_iff]
  · constructor
    · rintro ⟨⟨⟨hk, -⟩, hstart⟩, hne⟩
      exact ⟨hk, hstart, of_decide_eq_true hne⟩
    · rintro ⟨hk, hstart, hne⟩
      exact ⟨⟨⟨hk, Key.not_lt_of_startsWith hstart⟩, hstart⟩, decide_eq_true hne⟩
  · exact h.sublist (List.dropWhile_sublist _)
  · intro j hj
    exact ((mem_dropWhile_iff h scope j).mp hj).2

/-- A listing is ascending. -/
theorem Sorted.nested_pairwise {m : Memory} (h : m.Sorted) (scope : Key) :
    (m.nested scope).Pairwise (· < ·) :=
  h.sublist (List.filter_sublist.trans
    ((List.takeWhile_sublist _).trans (List.dropWhile_sublist _)))

end Memory

end BlobStore
