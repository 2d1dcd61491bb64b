import BlobStore.Proofs.Content
import BlobStore.Proofs.Transaction.Towers
import BlobStore.Proofs.View

/-!
# What a transaction touches

A storage does not notice what a transaction refuses, and what a transaction lets through is
answered by the storage itself. A save takes its content item by item here, so that a save that is
refused is seen to leave all of them.

## Main definitions

* `Intake.take`, `Backend.serve`: a request that pulls the content it is given, item by item
* `Backend.serveAll`: requests performed one after the other
* `Request.stray?`: the first key of a request that is not among some keys
* `Transaction.Confined`, `Transaction.Spares`: what goes through a transaction, and what it spares
* `Backend.Touches`: a backend that changes the values of a memory under the named keys only

## Main results

* `Intake.take_gathering`: a memory takes a save as it answers it, pulling what draining pulls
* `Backend.Touches.tower`: every tower over a memory changes only what is named
* `Storage.transaction_confined`: a transaction touches its keys only
-/

namespace BlobStore

/-! ## Pulling -/

section

variable {σ : Type}

/-- What an intake makes of the items of a producer, and the items that it does not pull. -/
def Intake.receive (i : Intake σ) (key : Key) (size : Option Nat) (now : Time) :
    Draft → List Item → σ → Reply Unit × List Item × σ
  | draft, [], s =>
    let (reply, s) := i.finish key size draft now s
    (reply, [], s)
  | draft, .failure cause :: rest, s =>
    let (reply, s) := i.fail key size draft cause now s
    (reply, rest, s)
  | draft, .chunk bytes :: rest, s =>
    let (draft, s) := i.append draft bytes now s
    i.receive key size now draft rest s

/-- A save that takes its content item by item, and the items that it does not pull. -/
def Intake.take (i : Intake σ) (key : Key) (content : Content) (now : Time) (s : σ) :
    Reply Unit × List Item × σ :=
  let (reply, s) := i.start key content.size now s
  match reply.result with
  | .error e => (⟨.error e, reply.events⟩, content.producer.items, s)
  | .ok draft =>
    let (ended, left, s) := i.receive key content.size now draft content.producer.items s
    (⟨ended.result, reply.events ++ ended.events⟩, left, s)

/-- The items of the content that a request is given. -/
def Request.given : Request → List Item
  | .save _ content => content.producer.items
  | .contains _ | .list _ | .value _ | .move _ _ | .delete _ | .metadata _ => []

/-- A request performed: the reply, the items that are left of the content it is given, and the
state afterwards. -/
def Backend.serve (b : Backend σ) (r : Request) (now : Time) (s : σ) :
    Reply r.Answer × List Item × σ :=
  match r with
  | .save key content => b.intake.take key content now s
  | r => ((b.answer r now s).1, [], (b.answer r now s).2)

/-- What came of a request that was performed, with what is left of its content. -/
structure Service where
  request : Request
  reply : Reply request.Answer
  left : List Item

/-- Requests performed one after the other, each at its time. -/
def Backend.serveAll (b : Backend σ) : List (Request × Time) → σ → List Service × σ
  | [], s => ([], s)
  | (r, now) :: rest, s =>
    let (reply, left, s) := b.serve r now s
    let (done, s) := b.serveAll rest s
    (⟨r, reply, left⟩ :: done, s)

end

/-- The replies of a memory to two saves of contents that drain alike are the same. -/
theorem Memory.answer_save_congr {content other : Content} (h : other.drain = content.drain)
    (key : Key) (now : Time) (m : Memory) :
    m.answer (.save key other) now = m.answer (.save key content) now := by
  simp only [answer, h]

theorem Intake.receive_gathering (key : Key) (size : Option Nat) (now : Time) (draft : Draft)
    (items : List Item) (m : Memory) :
    (Intake.gathering Memory.answer).receive key size now draft items m =
      ((m.answer (.save key (.ofStream (.chunk draft.bytes :: items) size)) now).1,
        (chunksOf items).2.2,
        (m.answer (.save key (.ofStream (.chunk draft.bytes :: items) size)) now).2) := by
  -- the draft stands for the chunks that were pulled, as one chunk before the others
  induction items generalizing draft with
  | nil => rfl
  | cons item rest ih =>
    cases item with
    | failure cause =>
      have hdrain : (Content.ofStream [.chunk draft.bytes, .failure cause] size).drain =
          (Content.ofStream (.chunk draft.bytes :: .failure cause :: rest) size).drain := rfl
      show ((m.answer _ now).1, rest, (m.answer _ now).2) = _
      rw [Memory.answer_save_congr hdrain]
      rfl
    | chunk bytes =>
      have hdrain :
          (Content.ofStream (.chunk (draft.bytes ++ bytes) :: rest) size).drain =
            (Content.ofStream (.chunk draft.bytes :: .chunk bytes :: rest) size).drain := by
        simp [Content.drain_eq_joined, Content.ofStream, Producer.items]
      refine (ih { draft with bytes := draft.bytes ++ bytes }).trans ?_
      rw [Memory.answer_save_congr hdrain, chunksOf]

/-- A memory takes a save item by item as it answers it at once, and pulls what draining pulls. -/
theorem Intake.take_gathering (key : Key) (content : Content) (now : Time) (m : Memory) :
    Memory.backend.intake.take key content now m =
      ((m.answer (.save key content) now).1, content.drained.2,
        (m.answer (.save key content) now).2) := by
  have hdrain :
      (Content.ofStream (.chunk [] :: content.producer.items) content.size).drain =
        content.drain := by
    simp [Content.drain_eq_joined, Content.ofStream, Producer.items]
  have hleft : content.drained.2 = (chunksOf content.producer.items).2.2 := by
    rw [Content.drained_eq_joined, joined]
    rcases chunksOf content.producer.items with ⟨chunks, _ | cause, left⟩ <;> rfl
  have hreceive := receive_gathering key content.size now {} content.producer.items m
  rw [Memory.answer_save_congr hdrain, ← hleft] at hreceive
  have htake : Memory.backend.intake.take key content now m =
      (Intake.gathering Memory.answer).receive key content.size now {} content.producer.items
        m := by
    simp only [take, Memory.backend, gathering, Reply.ok, List.nil_append]
  rw [htake, hreceive]

/-! ## One request -/

/-- The first key of a request that is not among some keys. -/
def Request.stray? (keys : List Key) (r : Request) : Option Key := r.named.find? (· ∉ keys)

/-- A request that transactions offer. -/
def Request.Offered (r : Request) : Prop := ∀ scope, r ≠ .list scope

section

variable {σ : Type} {S : Storage σ} {tx : Transaction} {keys : List Key} {r : Request} {k : Key}

theorem Transaction.outside?_eq_stray? (hr : r.Offered) (hkeys : ∀ k, k ∈ tx.keys ↔ k ∈ keys) :
    tx.outside? r = r.stray? keys := by
  have hnot : ∀ k, (!tx.contains k) = decide (k ∉ keys) := fun k => by simp [contains, hkeys]
  cases r with
  | list scope => exact absurd rfl (hr scope)
  | move source destination => simp only [outside?, Request.stray?, Request.named, hnot]
  | contains key | save key _ | value key | delete key | metadata key =>
    by_cases hk : key ∈ keys <;>
      simp [outside?, Request.stray?, Request.named, contains, hkeys, hk]

theorem Transaction.answer_inside (h : tx.outside? r = none) (now : Time) (s : σ) :
    tx.answer S r now s = S.answer r now s := by
  rw [answer, h]

theorem Transaction.answer_outside (h : tx.outside? r = some k) (now : Time) (s : σ) :
    tx.answer S r now s = (.error (.outsideTransaction k), s) := by
  rw [answer, h]

theorem Transaction.receive_through (tx : Transaction) (key : Key) (size : Option Nat) (now : Time)
    (draft : Draft) (items : List Item) (s : σ) :
    (tx.through S).intake.receive key size now draft items s =
      S.intake.receive key size now draft items s := by
  induction items generalizing draft s with
  | nil => rfl
  | cons item rest ih =>
    cases item with
    | failure cause => rfl
    | chunk bytes => exact ih _ _

/-- A request that a transaction lets through is performed by the storage. -/
theorem Transaction.serve_inside (h : tx.outside? r = none) (now : Time) (s : σ) :
    (tx.through S).serve r now s = S.toBackend.serve r now s := by
  cases r with
  | list scope => cases h
  | save key content =>
    have hin : tx.contains key = true := by
      by_contra hk
      simp [outside?, hk] at h
    have hstart : ∀ size, (tx.through S).intake.start key size now s =
        S.intake.start key size now s := fun size => if_pos hin
    simp only [Backend.serve, Intake.take, hstart, receive_through]
  | contains key | value key | move source destination | delete key | metadata key =>
    have hanswer := answer_inside (S := S) h now s
    show ((tx.answer S _ now s).1, _, (tx.answer S _ now s).2) = _
    rw [hanswer]
    rfl

/-- A request that a transaction refuses is not performed, and pulls nothing. -/
theorem Transaction.serve_outside (h : tx.outside? r = some k) (now : Time) (s : σ) :
    (tx.through S).serve r now s = (.error (.outsideTransaction k), r.given, s) := by
  cases r with
  | save key content =>
    have hout : tx.contains key = false ∧ key = k := by
      by_cases hk : tx.contains key <;> simp_all [outside?]
    obtain ⟨hout, rfl⟩ := hout
    have hstart : ∀ size, (tx.through S).intake.start key size now s =
        (.error (.outsideTransaction key), s) := fun size => if_neg (by simp [hout])
    simp only [Backend.serve, Intake.take, hstart, Reply.error, Request.given]
  | list _ | contains _ | value _ | move _ _ | delete _ | metadata _ =>
    have hanswer := answer_outside (S := S) h now s
    show ((tx.answer S _ now s).1, _, (tx.answer S _ now s).2) = _
    rw [hanswer]
    rfl

end

/-! ## Runs -/

section

variable {σ : Type}

variable (tx : Transaction) (S : Storage σ) (keys : List Key)

/-- The requests whose keys are all in a set. -/
def innerRequests (requests : List (Request × Time)) : List (Request × Time) :=
  requests.filter fun p => (p.1.stray? keys).isNone

/-- What a run of requests through a transaction comes to. -/
structure Transaction.ConfinedRun (requests : List (Request × Time)) (s : σ) : Prop where
  asked : ((tx.through S).serveAll requests s).1.map Service.request = requests.map Prod.fst
  /-- Requests whose keys are all in the set are answered as if there had been no others. -/
  answered : ((tx.through S).serveAll requests s).1.filter
      (fun p => (p.request.stray? keys).isNone) = (S.serveAll (innerRequests keys requests) s).1
  /-- The others are refused, and leave the contents that they are given. -/
  refused : ∀ p ∈ ((tx.through S).serveAll requests s).1, ∀ k, p.request.stray? keys = some k →
    p = ⟨p.request, .error (.outsideTransaction k), p.request.given⟩
  state : ((tx.through S).serveAll requests s).2 = (S.serveAll (innerRequests keys requests) s).2

/-- What goes through a transaction that was asked for over some keys. -/
structure Transaction.Confined : Prop where
  holds : ∀ k, tx.contains k = true ↔ k ∈ keys
  /-- A request whose keys are all in the set is answered by the storage. -/
  inside : ∀ r : Request, r.Offered → r.stray? keys = none → ∀ now s,
    tx.answer S r now s = S.answer r now s ∧
      (tx.through S).serve r now s = S.toBackend.serve r now s
  /-- Any other is refused for its first key outside the set; the storage is as before, and so is
  the content. -/
  outside : ∀ r : Request, r.Offered → ∀ k, r.stray? keys = some k → ∀ now s,
    tx.answer S r now s = (.error (.outsideTransaction k), s) ∧
      (tx.through S).serve r now s = (.error (.outsideTransaction k), r.given, s)
  run : ∀ (requests : List (Request × Time)) (s : σ), (∀ p ∈ requests, p.1.Offered) →
    tx.ConfinedRun S keys requests s

variable {tx S keys}

theorem Transaction.confinedRun (hkeys : ∀ k, k ∈ tx.keys ↔ k ∈ keys)
    (requests : List (Request × Time)) (s : σ) (hr : ∀ p ∈ requests, p.1.Offered) :
    tx.ConfinedRun S keys requests s := by
  induction requests generalizing s with
  | nil => exact ⟨rfl, rfl, by simp [Backend.serveAll], rfl⟩
  | cons p rest ih =>
    obtain ⟨r, now⟩ := p
    have houtside : tx.outside? r = r.stray? keys :=
      outside?_eq_stray? (hr _ List.mem_cons_self) hkeys
    have hrest := fun s => ih s fun p hp => hr p (List.mem_cons_of_mem _ hp)
    cases hstray : r.stray? keys with
    | none =>
      have hinner : innerRequests keys ((r, now) :: rest) =
          (r, now) :: innerRequests keys rest := by
        simp [innerRequests, hstray]
      have hserve := serve_inside (S := S) (houtside.trans hstray) now s
      rcases hdone : S.toBackend.serve r now s with ⟨reply, left, s'⟩
      rw [hdone] at hserve
      obtain ⟨hasked, hanswered, hrefused, hstate⟩ := hrest s'
      constructor
      all_goals simp only [Backend.serveAll, hserve]
      case asked => rw [List.map_cons, List.map_cons, hasked]
      case answered =>
        rw [hinner, List.filter_cons_of_pos (by simp [hstray]), hanswered]
        simp only [Backend.serveAll, hdone]
      case refused =>
        intro p hp k hk
        rcases List.mem_cons.mp hp with rfl | hp
        · cases hstray.symm.trans hk
        · exact hrefused p hp k hk
      case state =>
        rw [hinner, hstate]
        simp only [Backend.serveAll, hdone]
    | some key =>
      have hinner : innerRequests keys ((r, now) :: rest) = innerRequests keys rest := by
        simp [innerRequests, hstray]
      have hserve := serve_outside (S := S) (houtside.trans hstray) now s
      obtain ⟨hasked, hanswered, hrefused, hstate⟩ := hrest s
      constructor
      all_goals simp only [Backend.serveAll, hserve]
      case asked => rw [List.map_cons, List.map_cons, hasked]
      case answered => rw [hinner, List.filter_cons_of_neg (by simp [hstray]), hanswered]
      case refused =>
        intro p hp k hk
        rcases List.mem_cons.mp hp with rfl | hp
        · obtain rfl := Option.some.inj (hstray.symm.trans hk)
          rfl
        · exact hrefused p hp k hk
      case state => rw [hinner, hstate]

theorem Transaction.confined (hkeys : ∀ k, k ∈ tx.keys ↔ k ∈ keys) : tx.Confined S keys where
  holds k := by simp [contains, hkeys]
  inside r hr hstray now s :=
    have h := (outside?_eq_stray? hr hkeys).trans hstray
    ⟨answer_inside h now s, serve_inside h now s⟩
  outside r hr k hstray now s :=
    have h := (outside?_eq_stray? hr hkeys).trans hstray
    ⟨answer_outside h now s, serve_outside h now s⟩
  run requests s hr := confinedRun hkeys requests s hr

end

/-! ## What a memory keeps -/

/-- A request leaves the values alone, with all their times, of the keys that it does not name. -/
theorem Memory.get?_answer {r : Request} {k : Key} (h : k ∉ r.named) (now : Time) (m : Memory) :
    (m.answer r now).2.values.get? k = m.values.get? k := by
  cases r with
  | contains _ | list _ | metadata _ => rfl
  | save key content =>
    have hk : key ≠ k := by simpa [Request.named, eq_comm] using h
    simp only [answer]
    cases content.drain with
    | ok bytes => simp [write, hk]
    | error e => rfl
  | value key =>
    have hk : key ≠ k := by simpa [Request.named, eq_comm] using h
    simp only [answer]
    cases m.values.get? key with
    | some v => simp [hk]
    | none => rfl
  | move source destination =>
    obtain ⟨hs, hd⟩ : k ≠ source ∧ k ≠ destination := by simpa [Request.named] using h
    simp only [answer, rename]
    cases m.values.get? source with
    | some old => simp [hs.symm, hd.symm]
    | none => rfl
  | delete key =>
    have hk : key ≠ k := by simpa [Request.named, eq_comm] using h
    simp only [answer]
    split
    · simp [hk]
    · rfl

section

variable {σ τ : Type}

/-- An intake that does to a part of its state what another does to its state, under other keys and
with other errors. -/
structure Intake.Follows (j : Intake τ) (i : Intake σ) (part : τ → σ) (onKey : Key → Key)
    (onError : StorageError → StorageError) : Prop where
  start : ∀ key size now t,
    (j.start key size now t).1.result =
        (i.start (onKey key) size now (part t)).1.result.mapError onError ∧
      part (j.start key size now t).2 = (i.start (onKey key) size now (part t)).2
  append : ∀ draft piece now t,
    (j.append draft piece now t).1 = (i.append draft piece now (part t)).1 ∧
      part (j.append draft piece now t).2 = (i.append draft piece now (part t)).2
  finish : ∀ key size draft now t,
    part (j.finish key size draft now t).2 = (i.finish (onKey key) size draft now (part t)).2
  fail : ∀ key size draft cause now t,
    part (j.fail key size draft cause now t).2 =
      (i.fail (onKey key) size draft cause now (part t)).2

theorem Intake.Follows.receive {j : Intake τ} {i : Intake σ} {part : τ → σ} {onKey : Key → Key}
    {onError : StorageError → StorageError} (h : j.Follows i part onKey onError) (key : Key)
    (size : Option Nat) (now : Time) (draft : Draft) (items : List Item) (t : τ) :
    part (j.receive key size now draft items t).2.2 =
      (i.receive (onKey key) size now draft items (part t)).2.2 := by
  induction items generalizing draft t with
  | nil => exact h.finish key size draft now t
  | cons item rest ih =>
    cases item with
    | failure cause => exact h.fail key size draft cause now t
    | chunk bytes =>
      obtain ⟨hdraft, hpart⟩ := h.append draft bytes now t
      simp only [Intake.receive]
      rw [ih, hdraft, hpart]

theorem Intake.Follows.take {j : Intake τ} {i : Intake σ} {part : τ → σ} {onKey : Key → Key}
    {onError : StorageError → StorageError} (h : j.Follows i part onKey onError) (key : Key)
    (content : Content) (now : Time) (t : τ) :
    part (j.take key content now t).2.2 = (i.take (onKey key) content now (part t)).2.2 := by
  obtain ⟨hresult, hpart⟩ := h.start key content.size now t
  unfold Intake.take
  simp only [hresult]
  cases (i.start (onKey key) content.size now (part t)).1.result with
  | error e => exact hpart
  | ok draft =>
    show part (j.receive key content.size now draft content.producer.items _).2.2 = _
    rw [h.receive, hpart]

theorem Intake.follows_within (i : Intake σ) :
    (i.within (Part.first : Part (σ × τ) σ)).Follows i Prod.fst id id where
  start key size now t := by
    refine ⟨?_, rfl⟩
    show (i.start key size now t.1).1.result = (i.start key size now t.1).1.result.mapError id
    cases (i.start key size now t.1).1.result <;> rfl
  append _ _ _ _ := ⟨rfl, rfl⟩
  finish _ _ _ _ _ := rfl
  fail _ _ _ _ _ _ := rfl

theorem Intake.follows_view (i : Intake σ) (scope : Key) :
    (i.view scope).Follows i id scope.join (View.inward scope) where
  start _ _ _ _ := ⟨rfl, rfl⟩
  append _ _ _ _ := ⟨rfl, rfl⟩
  finish _ _ _ _ _ := rfl
  fail _ _ _ _ _ _ := rfl

theorem Intake.follows_logged (i : Intake σ) (identifier : String) :
    (i.logged identifier).Follows i id id id where
  start key size now t := by
    simp only [logged, id_eq]
    cases hresult : (i.start key size now t).1.result with
    | error e => exact ⟨rfl, rfl⟩
    | ok draft => exact ⟨hresult, rfl⟩
  append _ _ _ _ := ⟨rfl, rfl⟩
  finish _ _ _ _ _ := rfl
  fail _ _ _ _ _ _ := rfl

/-- A backend over a memory changes the values of the keys only that a request names; its keys stand
for those with `start` before them. -/
def Backend.Touches (b : Backend σ) (memory : σ → Memory) (start : Key) : Prop :=
  ∀ r now s k, (∀ key ∈ r.named, start.join key ≠ k) →
    (memory (b.serve r now s).2.2).values.get? k = (memory s).values.get? k

theorem Backend.touches_memory (τ : Type) :
    (Memory.backend.within (Part.first : Part (Memory × τ) Memory)).Touches Prod.fst Key.root := by
  intro r now s k hk
  have hout : k ∉ r.named := fun h => hk k h rfl
  have hserve : ((Memory.backend.within Part.first).serve r now s).2.2.1 =
      (s.1.answer r now).2 := by
    cases r with
    | save key content =>
      refine (Memory.backend.intake.follows_within.take key content now s).trans ?_
      rw [id, Intake.take_gathering]
    | _ => rfl
  rw [hserve]
  exact Memory.get?_answer hout now s.1

variable {b : Backend σ} {memory : σ → Memory} {start : Key}

theorem Backend.Touches.view (h : b.Touches memory start) (scope : Key) :
    (b.view scope).Touches memory (start.join scope) := by
  intro r now s k hk
  have hserve : ((b.view scope).serve r now s).2.2 =
      (b.serve (r.mapKeys scope.join) now s).2.2 := by
    cases r with
    | save key content => exact (b.intake.follows_view scope).take key content now s
    | _ => rfl
  rw [hserve]
  refine h _ now s k ?_
  rw [Request.named_mapKeys]
  intro key hkey
  obtain ⟨inner, hinner, rfl⟩ := List.mem_map.mp hkey
  rw [← Key.join_join]
  exact hk inner hinner

theorem Backend.Touches.logged (h : b.Touches memory start) : b.logged.Touches memory start := by
  intro r now s k hk
  have hserve : (b.logged.serve r now s).2.2 = (b.serve r now s).2.2 := by
    cases r with
    | save key content => exact (b.intake.follows_logged b.identifier).take key content now s
    | _ => rfl
  rw [hserve]
  exact h r now s k hk

/-- Every tower over a memory changes only what is named. -/
theorem Backend.Touches.tower {S : Storage σ} (h : S.Touches memory start) (tower : List Layer) :
    (Tower.storage tower S).Touches memory (tower.foldl Layer.within start) := by
  induction tower generalizing S start with
  | nil => exact h
  | cons layer rest ih =>
    refine ih (S := layer.over S) ?_
    cases layer with
    | view scope => exact h.view scope
    | logged => exact h.logged
    | shared => exact h

/-- A run through a transaction leaves the values alone for which no key of it stands. -/
theorem Backend.Touches.through {S : Storage σ} (h : S.Touches memory start) (tx : Transaction)
    {k : Key} (hk : ∀ key ∈ tx.keys, start.join key ≠ k) (requests : List (Request × Time))
    (s : σ) : (memory ((tx.through S).serveAll requests s).2).values.get? k =
      (memory s).values.get? k := by
  induction requests generalizing s with
  | nil => rfl
  | cons p rest ih =>
    obtain ⟨r, now⟩ := p
    have hstep : (memory ((tx.through S).serve r now s).2.2).values.get? k =
        (memory s).values.get? k := by
      cases hr : tx.outside? r with
      | some key => rw [Transaction.serve_outside hr]
      | none =>
        have hnamed := (Transaction.named_of_outside?_eq_none hr).2
        rw [Transaction.serve_inside hr]
        exact h r now s k fun key hkey => hk key (hnamed key hkey)
    exact (ih _).trans hstep

/-! ## What a transaction touches -/

/-- A run through a transaction over keys changes no other value of a memory, neither its bytes nor
its times. If the transaction is one of a tower over the memory, its keys stand for others below. -/
def Transaction.Spares (tx : Transaction) (keys : List Key) : Prop :=
  ∀ (tower : List Layer) (requests : List (Request × Time)) (s : Memory.State) (k : Key),
    (∀ key ∈ keys, (Tower.scope tower).join key ≠ k) →
      ((tx.through (Tower.storage tower Memory.storage)).serveAll requests s).2.1.values.get? k =
        s.1.values.get? k

/-- **A transaction touches its keys only.** What is done through it reaches the storage exactly if
it names keys of the set that the transaction was asked for, in whatever order and however often
they were given; so over a memory no other value changes. -/
theorem Storage.transaction_confined (S : Storage σ) (keys : List Key) {s₀ s₁ s₂ : σ}
    {tx : Transaction} {events : List Event}
    (h : S.poll (S.begin keys s₀).1 s₁ = (some (.ok tx), events, s₂)) :
    tx.Confined S keys ∧ tx.Spares keys := by
  have hordered : tx.keys = Key.ordered keys := by
    unfold poll at h
    split at h <;> cases h
    rfl
  have hkeys : ∀ k, k ∈ tx.keys ↔ k ∈ keys := fun k => by rw [hordered, Key.mem_ordered]
  refine ⟨Transaction.confined hkeys, fun tower requests s k hk => ?_⟩
  exact ((Backend.touches_memory LockTable).tower tower).through tx
    (fun key hkey => hk key ((hkeys key).mp hkey)) requests s

end

/-- Keys out of order, one of them twice. -/
def doubledKeys : List Key := [⟨["b"]⟩, .root, ⟨["b"]⟩]

/-- A transaction over them in a view, as it is granted. -/
def doubledTransaction : Transaction := ⟨[.root, ⟨["b"]⟩], 0⟩

theorem transaction_confined_doubledKeys :
    let S := Memory.storage.view ⟨["a"]⟩
    let (pending, s) := S.begin doubledKeys (Memory.empty, {})
    (S.poll pending s).1 = some (.ok doubledTransaction) ∧
      doubledTransaction.Confined S doubledKeys ∧ doubledTransaction.Spares doubledKeys := by
  refine ⟨rfl, ?_⟩
  have h : (Memory.storage.view ⟨["a"]⟩).poll
        ((Memory.storage.view ⟨["a"]⟩).begin doubledKeys (Memory.empty, {})).1
        ((Memory.storage.view ⟨["a"]⟩).begin doubledKeys (Memory.empty, {})).2 =
      (some (.ok doubledTransaction), _, _) := rfl
  exact Storage.transaction_confined (Memory.storage.view ⟨["a"]⟩) doubledKeys h

end BlobStore
