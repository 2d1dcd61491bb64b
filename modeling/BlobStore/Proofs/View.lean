import BlobStore.Proofs.Memory
import BlobStore.Proofs.Observation
import BlobStore.View

/-!
# Views are storages of their own

A view of a memory and the memory beside the view share no key: those of the view start with its
scope, and the others do not. So the values under the scope change by the requests to the view
alone, as those of a separate memory would, and the other values by the other requests alone.

## Main definitions

* `Memory.below`: what a memory holds under a key, as a memory
* `View.Call`: a request to a view, or to the storage that it shows
* `View.exchanges`: what comes of calls, those of either kind by themselves
* `View.Divides`: a memory that holds what two separate ones do

## Main results

* `View.relay_answer`: a view answers as a memory with the values under its scope
* `View.isolated`: a view and the storage beside it do not notice each other
-/

namespace BlobStore

/-! ## Requests with other keys -/

namespace Request

theorem named_mapKeys (f : Key → Key) (r : Request) : (r.mapKeys f).named = r.named.map f := by
  cases r <;> rfl

/-- A request with other keys does to these what it does to its own. -/
theorem effect_mapKeys {f : Key → Key} (hf : Function.Injective f) (r : Request) (c : Contents)
    (k : Key) : (r.mapKeys f).effect c (f k) = r.effect (fun j => c (f j)) k := by
  cases r with
  | contains _ | list _ | value _ | metadata _ => rfl
  | save key content =>
    simp only [mapKeys, effect]
    cases content.drain with
    | ok bytes => simp only [Function.update_apply, hf.eq_iff]
    | error e => rfl
  | move source destination =>
    simp only [mapKeys, effect]
    cases c (f source) with
    | some bytes => simp only [Function.update_apply, hf.eq_iff]
    | none => rfl
  | delete key => simp only [mapKeys, effect, Function.update_apply, hf.eq_iff]

/-- A request that names no key that starts with `scope`, and is no listing. -/
def Beside (scope : Key) : Request → Prop
  | .list _ => False
  | .contains key | .save key _ | .value key | .delete key | .metadata key =>
    key.startsWith scope = false
  | .move source destination =>
    source.startsWith scope = false ∧ destination.startsWith scope = false

instance decidableBeside (scope : Key) : (r : Request) → Decidable (r.Beside scope)
  | .list _ => .isFalse id
  | .contains key | .save key _ | .value key | .delete key | .metadata key =>
    inferInstanceAs (Decidable (key.startsWith scope = false))
  | .move source destination =>
    inferInstanceAs
      (Decidable (source.startsWith scope = false ∧ destination.startsWith scope = false))

theorem Beside.ne_list {scope : Key} {r : Request} (h : r.Beside scope) (k : Key) :
    r ≠ .list k := by
  rintro rfl
  exact h

theorem Beside.startsWith_eq_false {scope : Key} {r : Request} (h : r.Beside scope) {k : Key}
    (hk : k ∈ r.named) : k.startsWith scope = false := by
  cases r with
  | list _ => exact h.elim
  | move source destination =>
    rcases List.mem_cons.mp hk with rfl | hk
    · exact h.1
    · exact List.mem_singleton.mp hk ▸ h.2
  | contains _ | save _ _ | value _ | delete _ | metadata _ => exact List.mem_singleton.mp hk ▸ h

end Request

/-! ## What lies under a key -/

namespace Memory

/-- What a memory holds under a key: each value with its times, under what its key goes on with. -/
def below (scope : Key) (m : Memory) : Memory :=
  ⟨⟨m.values.entries.filterMap fun (k, v) => (k.stripStart? scope).map (·, v)⟩⟩

theorem get?_below (scope : Key) (m : Memory) (k : Key) :
    (m.below scope).values.get? k = m.values.get? (scope.join k) := by
  obtain ⟨entries⟩ := m
  simp only [below, OrderedMap.get?]
  obtain ⟨entries⟩ := entries
  induction entries with
  | nil => rfl
  | cons entry rest ih =>
    obtain ⟨x, v⟩ := entry
    rw [OrderedMap.find, List.filterMap_cons]
    cases hx : x.stripStart? scope with
    | none =>
      have hne : x ≠ scope.join k := fun he => by simp [he] at hx
      simpa [hne] using ih
    | some inner =>
      obtain rfl := Key.stripStart?_eq_some.mp hx
      simpa [OrderedMap.find, (Key.join_injective scope).eq_iff] using congrArg _ ih

theorem contents_below (scope : Key) (m : Memory) (k : Key) :
    (m.below scope).contents k = m.contents (scope.join k) := by
  unfold contents
  rw [get?_below]

theorem keys_below (scope : Key) (m : Memory) :
    (m.below scope).values.keys = m.values.keys.filterMap (·.stripStart? scope) := by
  simp only [OrderedMap.keys, below, List.filterMap_map, List.map_filterMap]
  refine List.filterMap_congr ?_
  rintro ⟨k, v⟩ -
  show ((k.stripStart? scope).map (·, v)).map (·.1) = k.stripStart? scope
  cases k.stripStart? scope <;> rfl

theorem Sorted.below {m : Memory} (h : m.Sorted) (scope : Key) : (m.below scope).Sorted := by
  unfold Sorted OrderedMap.Sorted
  rw [keys_below]
  exact Key.pairwise_stripStart h scope

end Memory

/-- Requests with their answers, put one after the other; the clock tells the time of each. -/
def Backend.exchanges {σ : Type} (b : Backend σ) (clock : Nat → Time) :
    List Request → Nat → σ → List Exchange
  | [], _, _ => []
  | r :: rest, n, s =>
    let (reply, s) := b.answer r (clock n) s
    ⟨r, reply.result.map r.timeless⟩ :: b.exchanges clock rest (n + 1) s

/-! ## One request -/

namespace View

@[simp] theorem inner_join (scope key : Key) : inner scope (scope.join key) = key := by
  simp [inner]

@[simp] theorem inward_notFound (scope key : Key) :
    inward scope (.notFound (scope.join key)) = .notFound key :=
  congrArg StorageError.notFound (inner_join scope key)

/-- A listing through a view shows what a listing of the values under its scope does. -/
theorem filterMap_nested {scope : Key} {m own : Memory} (hm : m.Sorted) (ho : own.Sorted)
    (h : ∀ k, own.contents k = m.contents (scope.join k)) (k : Key) :
    (m.nested (scope.join k)).filterMap (·.stripStart? scope) = own.nested k := by
  refine Key.eq_of_pairwise (Key.pairwise_stripStart (hm.nested_pairwise _) scope)
    (ho.nested_pairwise k) ?_
  intro j
  rw [Key.mem_stripStart, hm.mem_nested, ho.mem_nested, h, Key.join_under_join]

/-- A view answers as a memory that holds what lies under its scope, at any two times: values, lists
and booleans are the same, and so are errors with the keys that they name. -/
theorem relay_answer {scope : Key} {m own : Memory} (hm : m.Sorted) (ho : own.Sorted)
    (h : ∀ k, own.contents k = m.contents (scope.join k)) (r : Request) (now now' : Time) :
    (relay scope r (m.answer (r.mapKeys scope.join) now).1).result.map r.timeless =
      (own.answer r now').1.result.map r.timeless := by
  cases r with
  | list k =>
    have hlist := filterMap_nested hm ho h k
    simp only [Request.mapKeys, Memory.answer, relay]
    exact congrArg Except.ok hlist
  | save key content =>
    simp only [Request.mapKeys, Memory.answer, relay]
    cases content.drain <;> rfl
  | contains key =>
    simp only [Request.mapKeys, Memory.answer, relay, ← Memory.isSome_contents, h key]
    rfl
  | value key =>
    simp only [Request.mapKeys, Memory.answer, relay]
    rcases Memory.get?_of_contents_eq (h key) with ⟨hv, hv'⟩ | ⟨v, v', hv, hv', hb⟩
    · simp [hv, hv', Reply.error, Except.mapError]
    · simp [hv, hv', hb, Reply.ok, Except.mapError]
  | move source destination =>
    simp only [Request.mapKeys, Memory.answer, Memory.rename, relay]
    rcases Memory.get?_of_contents_eq (h source) with ⟨hv, hv'⟩ | ⟨v, v', hv, hv', -⟩
    · simp [hv, hv', Reply.error, Except.mapError]
    · simp [hv, hv', Reply.ok, Except.mapError]
  | delete key =>
    simp only [Request.mapKeys, Memory.answer, OrderedMap.contains, relay]
    rcases Memory.get?_of_contents_eq (h key) with ⟨hv, hv'⟩ | ⟨v, v', hv, hv', -⟩
    · simp [hv, hv', Reply.error, Except.mapError]
    · simp [hv, hv', Reply.ok, Except.mapError]
  | metadata key =>
    simp only [Request.mapKeys, Memory.answer, Reply.orNotFound, relay]
    rcases Memory.get?_of_contents_eq (h key) with ⟨hv, hv'⟩ | ⟨v, v', hv, hv', hb⟩
    · simp [hv, hv', Reply.error, Except.mapError]
    · simp [hv, hv', hb, Reply.ok, Except.mapError, Except.map, Request.timeless,
        Memory.describe_timeless]

/-! ## Calls of both kinds -/

/-- A request to a view, or to the storage that it shows. -/
inductive Call
  | inside (r : Request)
  | outside (r : Request)

namespace Call

/-- The request of a call to the view. -/
def inside? : Call → Option Request
  | .inside r => some r
  | .outside _ => none

/-- The request of a call to the storage. -/
def outside? : Call → Option Request
  | .inside _ => none
  | .outside r => some r

/-- Any request may be put to the view; those to the storage name keys outside of it. -/
def Apart (scope : Key) : Call → Prop
  | .inside _ => True
  | .outside r => r.Beside scope

instance decidableApart (scope : Key) : (c : Call) → Decidable (c.Apart scope)
  | .inside _ => .isTrue trivial
  | .outside r => inferInstanceAs (Decidable (r.Beside scope))

end Call

/-- What comes of calls, one after the other: of those to the view, and of those to the storage. -/
def exchanges {σ : Type} (b : Backend σ) (scope : Key) (clock : Nat → Time) :
    List Call → Nat → σ → List Exchange × List Exchange
  | [], _, _ => ([], [])
  | .inside r :: rest, n, s =>
    let (reply, s) := (b.view scope).answer r (clock n) s
    (exchanges b scope clock rest (n + 1) s).map (⟨r, reply.result.map r.timeless⟩ :: ·) id
  | .outside r :: rest, n, s =>
    let (reply, s) := b.answer r (clock n) s
    (exchanges b scope clock rest (n + 1) s).map id (⟨r, reply.result.map r.timeless⟩ :: ·)

section

variable {σ : Type} (b : Backend σ) (scope : Key) (clock : Nat → Time) (r : Request)
  (rest : List Call) (n : Nat) (s : σ)

theorem exchanges_inside :
    exchanges b scope clock (.inside r :: rest) n s =
      (exchanges b scope clock rest (n + 1) ((b.view scope).answer r (clock n) s).2).map
        (⟨r, ((b.view scope).answer r (clock n) s).1.result.map r.timeless⟩ :: ·) id := rfl

theorem exchanges_outside :
    exchanges b scope clock (.outside r :: rest) n s =
      (exchanges b scope clock rest (n + 1) (b.answer r (clock n) s).2).map id
        (⟨r, (b.answer r (clock n) s).1.result.map r.timeless⟩ :: ·) := rfl

end

/-- A memory that holds what two separate ones do: one its values under `scope`, and one the others.
What else the second holds does not matter. -/
structure Divides (scope : Key) (m own other : Memory) : Prop where
  sorted : m.Sorted
  own_sorted : own.Sorted
  inside : ∀ k, own.contents k = m.contents (scope.join k)
  outside : ∀ k, k.startsWith scope = false → other.contents k = m.contents k

namespace Divides

variable {scope : Key} {m own other : Memory}

theorem below (hm : m.Sorted) (scope : Key) : Divides scope m (m.below scope) m where
  sorted := hm
  own_sorted := hm.below scope
  inside := m.contents_below scope
  outside _ _ := rfl

/-- A request to the view is answered by the first memory, and the second stays as it is. -/
theorem answer_inside (h : Divides scope m own other) (r : Request) (now now' : Time) :
    ((Memory.backend.view scope).answer r now m).1.result.map r.timeless =
        (own.answer r now').1.result.map r.timeless ∧
      Divides scope ((Memory.backend.view scope).answer r now m).2 (own.answer r now').2 other := by
  refine ⟨relay_answer h.sorted h.own_sorted h.inside r now now', ?_⟩
  show Divides scope (m.answer (r.mapKeys scope.join) now).2 (own.answer r now').2 other
  refine ⟨h.sorted.answer _ now, h.own_sorted.answer r now', ?_, ?_⟩
  · intro k
    rw [Memory.contents_answer, Memory.contents_answer,
      Request.effect_mapKeys (Key.join_injective scope), funext h.inside]
  · intro k hk
    rw [Memory.contents_answer, Request.effect_of_not_mem ?_, h.outside k hk]
    intro hmem
    rw [Request.named_mapKeys] at hmem
    obtain ⟨j, -, rfl⟩ := List.mem_map.mp hmem
    rw [Key.startsWith_join] at hk
    cases hk

/-- A request beside the view is answered by the second memory, and the first stays as it is. -/
theorem answer_outside (h : Divides scope m own other) {r : Request} (hr : r.Beside scope)
    (now now' : Time) :
    (m.answer r now).1.result.map r.timeless = (other.answer r now').1.result.map r.timeless ∧
      Divides scope (m.answer r now).2 own (other.answer r now').2 := by
  have hnamed : ∀ k ∈ r.named, other.contents k = m.contents k := fun k hk =>
    h.outside k (hr.startsWith_eq_false hk)
  refine ⟨Memory.answer_congr hr.ne_list (fun k hk => (hnamed k hk).symm) now now',
    h.sorted.answer r now, h.own_sorted, ?_, ?_⟩
  · intro k
    rw [Memory.contents_answer, Request.effect_of_not_mem ?_, h.inside k]
    intro hmem
    have hk := hr.startsWith_eq_false hmem
    rw [Key.startsWith_join] at hk
    cases hk
  · intro k hk
    rw [Memory.contents_answer, Memory.contents_answer]
    exact Request.effect_congr hnamed (h.outside k hk)

/-- Calls are answered as by the two memories, each asked its own requests only. -/
theorem exchanges_eq (h : Divides scope m own other) {calls : List Call}
    (hc : ∀ c ∈ calls, c.Apart scope) (clock clock' clock'' : Nat → Time) (n i j : Nat) :
    exchanges Memory.backend scope clock calls n m =
      (Memory.backend.exchanges clock' (calls.filterMap Call.inside?) i own,
        Memory.backend.exchanges clock'' (calls.filterMap Call.outside?) j other) := by
  induction calls generalizing m own other n i j with
  | nil => rfl
  | cons c rest ih =>
    have hrest := fun c h => hc c (List.mem_cons_of_mem _ h)
    cases c with
    | inside r =>
      obtain ⟨hresult, hafter⟩ := h.answer_inside r (clock n) (clock' i)
      rw [exchanges_inside, ih hafter hrest (n + 1) (i + 1) j, hresult]
      rfl
    | outside r =>
      obtain ⟨hresult, hafter⟩ :=
        h.answer_outside (hc (.outside r) List.mem_cons_self) (clock n) (clock'' j)
      have hanswer : Memory.backend.answer r (clock n) m = m.answer r (clock n) := rfl
      rw [exchanges_outside, hanswer, ih hafter hrest (n + 1) i (j + 1), hresult]
      rfl

end Divides

/-- **Isolation.** However requests to a view of a memory and requests to the memory itself are
interleaved, those to the view are answered as by a memory of its own that holds at first what lies
under the scope, and the others, on keys outside of the scope, as if the view were not used.
Instants aside: each of the three may read a clock of its own. -/
theorem isolated (scope : Key) {m : Memory} (hm : m.Sorted) {calls : List Call}
    (hc : ∀ c ∈ calls, c.Apart scope) (clock clock' clock'' : Nat → Time) :
    exchanges Memory.backend scope clock calls 0 m =
      (Memory.backend.exchanges clock' (calls.filterMap Call.inside?) 0 (m.below scope),
        Memory.backend.exchanges clock'' (calls.filterMap Call.outside?) 0 m) :=
  (Divides.below hm scope).exchanges_eq hc clock clock' clock'' 0 0 0

/-- A memory with a value at the scope `a` of a view, one under it, and one at a key whose text
begins like theirs. -/
def sampleMemory : Memory :=
  ((Memory.empty.write ⟨["a"]⟩ [1] ⟨1⟩).write ⟨["a", "b"]⟩ [2] ⟨2⟩).write ⟨["ab"]⟩ [3] ⟨3⟩

/-- Through the view its root is moved and what is gone is looked for; beside it a value is moved
to a key that the view has, too, but elsewhere. -/
def sampleCalls : List Call :=
  [.inside (.list .root), .inside (.move .root ⟨["b"]⟩), .outside (.move ⟨["ab"]⟩ ⟨["b"]⟩),
    .inside (.value .root), .inside (.value ⟨["b"]⟩), .outside (.value ⟨["b"]⟩),
    .inside (.list .root), .outside (.delete ⟨["ab"]⟩)]

theorem isolated_on_sampleCalls :
    sampleMemory.Sorted ∧ (∀ c ∈ sampleCalls, c.Apart ⟨["a"]⟩) ∧
      exchanges Memory.backend ⟨["a"]⟩ (fun n => ⟨n⟩) sampleCalls 0 sampleMemory =
        (Memory.backend.exchanges (fun _ => ⟨0⟩)
            [.list .root, .move .root ⟨["b"]⟩, .value .root, .value ⟨["b"]⟩, .list .root] 0
            (sampleMemory.below ⟨["a"]⟩),
          Memory.backend.exchanges (fun _ => ⟨0⟩)
            [.move ⟨["ab"]⟩ ⟨["b"]⟩, .value ⟨["b"]⟩, .delete ⟨["ab"]⟩] 0 sampleMemory) := by
  have hm : sampleMemory.Sorted := ((OrderedMap.sorted_empty.put _ _).put _ _).put _ _
  have hc : ∀ c ∈ sampleCalls, c.Apart ⟨["a"]⟩ := by decide
  exact ⟨hm, hc, isolated ⟨["a"]⟩ hm hc (fun n => ⟨n⟩) (fun _ => ⟨0⟩) (fun _ => ⟨0⟩)⟩

end View

end BlobStore
