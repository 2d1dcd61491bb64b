import BlobStore.Proofs.Blame
import BlobStore.Proofs.Transaction.Outcome

/-!
# Views of views

A view of a view shows what one view does that starts where the two starts lead, one after the
other: its keys are mapped twice, its listings sifted twice and its errors rewritten twice. An
error is rewritten wherever it names a key under the start of a view. So two rewritings are one
only for the keys under both starts, and this is why errors have to be about the keys of the
request: about a key beside the inner view two views may say different things.

## Main definitions

* `Storage.called`: a storage by another name
* `Storage.Alike`: storages that differ in what they are called only
* `Storage.Interchangeable`: those whose users see the same in every run

## Main results

* `Key.stripStart?_join_start`, `View.inward_inward`: two views are one for keys and for errors
* `Storage.Alike.interchangeable`: what a storage is called does not matter to those who use it
* `Storage.namesOwn_tower`, `Storage.alike_views`: any number of wrappings, and of views
* `Storage.views_compose`: two views, and the view of everything
-/

namespace BlobStore

/-! ## Keys and errors -/

/-- A start is taken off a key piece by piece. -/
theorem Key.stripStart?_join_start (k p q : Key) :
    k.stripStart? (p.join q) = (k.stripStart? p).bind (·.stripStart? q) := by
  ext inner
  simp only [Option.bind_eq_some_iff, stripStart?_eq_some]
  constructor
  · rintro rfl
    exact ⟨q.join inner, join_join p q inner, rfl⟩
  · rintro ⟨_, rfl, rfl⟩
    exact (join_join p q inner).symm

theorem Key.stripStart?_root (k : Key) : k.stripStart? root = some k :=
  stripStart?_eq_some.mpr (root_join k).symm

/-- The starts of the views of a tower follow each other. -/
theorem Tower.scope_views (scope : Key) (scopes : List Key) :
    Tower.scope ((scope :: scopes).map Layer.view) =
      scope.join (Tower.scope (scopes.map Layer.view)) := by
  have hassoc : Std.Associative Key.join := ⟨Key.join_join⟩
  have hroot : scope.join Key.root = Key.root.join scope :=
    Key.ext_segments (List.append_nil scope.segments)
  have htower : ∀ start, (scopes.map Layer.view).foldl Layer.within start =
      scopes.foldl Key.join start := fun _ => List.foldl_map
  simp only [Tower.scope, List.map_cons, List.foldl_cons, Layer.within, htower]
  rw [← hroot]
  exact List.foldl_assoc

namespace View

variable {p q : Key} {keys : List Key} {α : Type}

/-- Under both starts, a key of the storage stands for the same key of either view. -/
theorem inner_inner (p q key : Key) :
    inner q (inner p ((p.join q).join key)) = inner (p.join q) ((p.join q).join key) := by
  rw [inner_join, Key.join_join, inner_join, inner_join]

/-- Errors about keys under both starts are rewritten alike. -/
theorem inward_inward {e : StorageError} (h : e.About (keys.map (p.join q).join)) :
    inward q (inward p e) = inward (p.join q) e := by
  have hinner : ∀ k, e.key? = some k → inner q (inner p k) = inner (p.join q) k := by
    intro k hk
    obtain ⟨_, hmem, hstart⟩ := h k hk
    obtain ⟨key, -, rfl⟩ := List.mem_map.mp hmem
    obtain ⟨rest, rfl⟩ := Key.exists_join_of_startsWith hstart
    rw [Key.join_join]
    exact inner_inner p q (key.join rest)
  cases e with
  | notFound k | io k _ | backend k _ | outsideTransaction k =>
    simp [inward, StorageError.mapKey, hinner k rfl]
  | config _ | content _ | lock _ => rfl

/-- An error about the start of the outer view only is about no key of the inner one. -/
example : inward ⟨["b"]⟩ (inward ⟨["a"]⟩ (.notFound ⟨["a"]⟩)) = .notFound .root ∧
    inward ⟨["a", "b"]⟩ (.notFound ⟨["a"]⟩) = .notFound ⟨["a"]⟩ := by decide

theorem mapError_inward {result : Except StorageError α}
    (h : Blames (keys.map (p.join q).join) result) :
    (result.mapError (inward p)).mapError (inward q) = result.mapError (inward (p.join q)) := by
  cases result with
  | ok value => rfl
  | error e => exact congrArg Except.error (inward_inward (h e rfl))

theorem reply_inward {key : Key} {reply : Reply α}
    (h : Blames [(p.join q).join key] reply.result) :
    (reply.mapError (inward p)).mapError (inward q) = reply.mapError (inward (p.join q)) := by
  have hkeys : Blames ([key].map (p.join q).join) reply.result := h
  exact congrArg (Reply.mk · reply.events) (mapError_inward hkeys)

/-- What is listed through two views is sifted as through one, if it can be listed. -/
theorem map_filterMap {result : Except StorageError (List Key)}
    (h : Blames (keys.map (p.join q).join) result) :
    (((result.mapError (inward p)).map (·.filterMap (·.stripStart? p))).mapError (inward q)).map
        (·.filterMap (·.stripStart? q)) =
      (result.mapError (inward (p.join q))).map (·.filterMap (·.stripStart? (p.join q))) := by
  cases result with
  | ok listed =>
    have hsifted : (listed.filterMap (·.stripStart? p)).filterMap (·.stripStart? q) =
        listed.filterMap (·.stripStart? (p.join q)) := by
      rw [List.filterMap_filterMap]
      exact List.filterMap_congr fun k _ => (k.stripStart?_join_start p q).symm
    exact congrArg Except.ok hsifted
  | error e => exact congrArg Except.error (inward_inward (h e rfl))

theorem inner_root (key : Key) : inner Key.root key = key := by
  rw [inner, key.stripStart?_root, Option.getD_some]

theorem inward_root (e : StorageError) : inward Key.root e = e := by
  cases e with
  | notFound k | io k _ | backend k _ | outsideTransaction k =>
    simp only [inward, StorageError.mapKey, inner_root]
  | config _ | content _ | lock _ => rfl

theorem mapError_root (result : Except StorageError α) :
    result.mapError (inward Key.root) = result := by
  cases result with
  | ok value => rfl
  | error e => exact congrArg Except.error (inward_root e)

theorem map_root (result : Except StorageError (List Key)) :
    result.map (·.filterMap (·.stripStart? Key.root)) = result := by
  cases result with
  | ok listed =>
    refine congrArg Except.ok ?_
    simp only [Key.stripStart?_root, List.filterMap_some]
  | error e => rfl

end View

/-! ## Storages by other names -/

section

variable {σ : Type}

/-- A storage that is called by another name. -/
def Storage.called (S : Storage σ) (identifier : String) : Storage σ := { S with identifier }

/-- Storages that answer every request alike, take in saves alike and have the same locks. They may
be called differently, which shows in reports on transactions. -/
structure Storage.Alike (S T : Storage σ) : Prop where
  answer : ∀ r now s, S.answer r now s = T.answer r now s
  intake : S.intake = T.intake
  locking : S.locking = T.locking

/-- Alike storages whose users see the same in every run, which comes to the same state. -/
structure Storage.Interchangeable (S T : Storage σ) : Prop extends S.Alike T where
  upshots : ∀ clock deeds n u,
    (S.use clock deeds n u).1.map Account.upshot = (T.use clock deeds n u).1.map Account.upshot
  state : ∀ clock deeds n u, (S.use clock deeds n u).2 = (T.use clock deeds n u).2

/-- What is shown of a deed, besides the reports on it. -/
def Account.shown {α : Type} (p : Account × α) : Upshot × α := (p.1.upshot, p.2)

namespace Storage

variable {S T : Storage σ} (name : String)

theorem transact_called (pending : PendingTransaction) (stage : Stage) (deed : TransactionDeed)
    (now : Time) (s : σ) :
    Account.shown ((S.called name).transact pending stage deed now s) =
      Account.shown (S.transact pending stage deed now s) := by
  cases stage with
  | waiting =>
    cases deed with
    | poll =>
      have hlocking : (S.called name).locking = S.locking := rfl
      simp only [transact, poll, hlocking]
      rcases S.locking.poll pending.ticket s with ⟨_ | _ | _, events, after⟩ <;> rfl
    | _ => rfl
  | active tx =>
    cases deed with
    | ask r =>
      simp only [transact]
      cases tx.outside? r <;> rfl
    | finish ending =>
      simp only [transact, Account.shown, Transaction.finish_result, Transaction.finish_state]
      rfl
    | drop background => cases background <;> rfl
    | _ => rfl
  | leaving tx => cases deed <;> rfl
  | withdrawn => rfl
  | refused cause => rfl
  | ended result => rfl

theorem perform_called (deed : Deed) (now : Time) (u : InUse σ) :
    Account.shown ((S.called name).perform deed now u) = Account.shown (S.perform deed now u) := by
  cases deed with
  | transact i deed =>
    simp only [perform]
    rcases u.transactions[i]? with _ | ⟨pending, stage⟩
    · rfl
    · obtain ⟨hupshot, hafter⟩ :=
        Prod.mk.inj (S.transact_called name pending stage deed now u.store)
      simp only [Account.shown, hupshot, hafter]
  | ask _ | begin _ | start _ _ | upload _ _ => rfl

theorem use_called (clock : Nat → Time) (deeds : List Deed) (n : Nat) (u : InUse σ) :
    (((S.called name).use clock deeds n u).1.map Account.upshot,
        ((S.called name).use clock deeds n u).2) =
      ((S.use clock deeds n u).1.map Account.upshot, (S.use clock deeds n u).2) := by
  induction deeds generalizing n u with
  | nil => rfl
  | cons deed rest ih =>
    obtain ⟨hupshot, hafter⟩ := Prod.mk.inj (S.perform_called name deed (clock n) u)
    obtain ⟨hupshots, hend⟩ := Prod.mk.inj (ih (n + 1) (S.perform deed (clock n) u).2)
    simp only [use, List.map_cons, hupshot, hafter, hupshots, hend]

/-! ## Views of views -/

theorem Alike.eq_called (h : S.Alike T) : S = T.called S.identifier := by
  obtain ⟨⟨identifier, answer, intake⟩, locking⟩ := S
  obtain ⟨⟨other, answer', intake'⟩, locking'⟩ := T
  obtain ⟨hanswer, rfl, rfl⟩ := h
  obtain rfl : answer = answer' := by
    funext r now s
    exact hanswer r now s
  rfl

/-- What a storage is called does not matter to those who use it. -/
theorem Alike.interchangeable (h : S.Alike T) : S.Interchangeable T where
  toAlike := h
  upshots clock deeds n u := by
    rw [h.eq_called]
    exact (Prod.mk.inj (T.use_called S.identifier clock deeds n u)).1
  state clock deeds n u := by
    rw [h.eq_called]
    exact (Prod.mk.inj (T.use_called S.identifier clock deeds n u)).2

theorem Alike.symm (h : S.Alike T) : T.Alike S where
  answer r now s := (h.answer r now s).symm
  intake := h.intake.symm
  locking := h.locking.symm

theorem Alike.trans {U : Storage σ} (h : S.Alike T) (h' : T.Alike U) : S.Alike U where
  answer r now s := (h.answer r now s).trans (h'.answer r now s)
  intake := h.intake.trans h'.intake
  locking := h.locking.trans h'.locking

/-- A request is put to a storage through two views as through one, and its answer comes back
alike. -/
theorem answer_view_view (h : S.NamesOwn) (p q : Key) (r : Request) (now : Time) (s : σ) :
    ((S.view p).view q).answer r now s = (S.view (p.join q)).answer r now s := by
  have hblames := h.answer (r.mapKeys (p.join q).join) now s
  rw [Request.named_mapKeys] at hblames
  -- the type of an answer depends on its request, so no key is rewritten before that is known
  cases r with
  | list k =>
    simp only [Request.mapKeys, Storage.view, Backend.view, View.relay] at hblames ⊢
    rw [Key.join_join] at hblames ⊢
    rw [View.map_filterMap hblames]
  | move source destination =>
    simp only [Request.mapKeys, Storage.view, Backend.view, View.relay] at hblames ⊢
    rw [Key.join_join, Key.join_join] at hblames ⊢
    rw [View.mapError_inward hblames]
  | contains k | save k _ | value k | delete k | metadata k =>
    simp only [Request.mapKeys, Storage.view, Backend.view, View.relay] at hblames ⊢
    rw [Key.join_join] at hblames ⊢
    rw [View.mapError_inward hblames]

theorem intake_view_view (h : S.NamesOwn) (p q : Key) :
    ((S.view p).view q).intake = (S.view (p.join q)).intake := by
  have hstart := fun key size now s =>
    View.reply_inward (h.start ((p.join q).join key) size now s)
  have hfinish := fun key size draft now s =>
    View.reply_inward (h.finish ((p.join q).join key) size draft now s)
  have hfail := fun key size draft cause now s =>
    View.reply_inward (h.fail ((p.join q).join key) size draft cause now s)
  simp only [Storage.view, Backend.view, Intake.view, ← Key.join_join, hstart, hfinish, hfail]

theorem locking_view_view (S : Storage σ) (p q : Key) :
    ((S.view p).view q).locking = (S.view (p.join q)).locking := by
  have hkeys : ∀ keys : List Key, (keys.map q.join).map p.join = keys.map (p.join q).join := by
    intro keys
    rw [List.map_map]
    exact List.map_congr_left fun k _ => (Key.join_join p q k).symm
  simp only [Storage.view, hkeys]

/-- Two views of a storage whose errors name their own keys are one. -/
theorem alike_view_view (h : S.NamesOwn) (p q : Key) :
    ((S.view p).view q).Alike (S.view (p.join q)) where
  answer := answer_view_view h p q
  intake := intake_view_view h p q
  locking := S.locking_view_view p q

/-- The view of everything is the storage itself. -/
theorem alike_view_root (S : Storage σ) : (S.view Key.root).Alike S where
  answer r now s := by
    cases r with
    | list k =>
      simp only [Request.mapKeys, Storage.view, Backend.view, View.relay]
      rw [Key.root_join, View.mapError_root, View.map_root]
    | move source destination =>
      simp only [Request.mapKeys, Storage.view, Backend.view, View.relay]
      rw [Key.root_join, Key.root_join, View.mapError_root]
    | contains k | save k _ | value k | delete k | metadata k =>
      simp only [Request.mapKeys, Storage.view, Backend.view, View.relay]
      rw [Key.root_join, View.mapError_root]
  intake := by
    simp only [Storage.view, Backend.view, Intake.view, Reply.mapError, View.mapError_root]
    rfl
  locking := by
    have hkeys : ∀ keys : List Key, keys.map Key.root.join = keys := fun keys => by
      rw [List.map_congr_left fun k _ => Key.root_join k, List.map_id']
    simp only [Storage.view, hkeys]

/-- Whatever a storage is wrapped in, its errors still name their own keys. -/
theorem namesOwn_tower (h : S.NamesOwn) (tower : List Layer) :
    (Tower.storage tower S).NamesOwn := by
  induction tower generalizing S with
  | nil => exact h
  | cons layer rest ih =>
    apply ih
    cases layer with
    | view scope => exact h.view scope
    | logged => exact h.logged
    | shared => exact h

/-- A tower of views is one view. -/
theorem alike_views (h : S.NamesOwn) (scopes : List Key) :
    (Tower.storage (scopes.map Layer.view) S).Alike
      (S.view (Tower.scope (scopes.map Layer.view))) := by
  -- from the storage outwards: the innermost view is the storage of the others
  induction scopes generalizing S with
  | nil => exact S.alike_view_root.symm
  | cons scope rest ih =>
    rw [Tower.scope_views]
    exact (ih (h.view scope)).trans (alike_view_view h scope _)

/-- **Views compose.** Two views of a storage whose errors name their own keys are interchangeable
with the view that starts where they lead: every request is answered alike from every state, with
the same effect on the storage, and every run of requests, transactions and uploads shows the same,
errors with the keys that they name included. The storage is called upon for the same locks, over
the same keys. The view that starts at the root is interchangeable with the storage. -/
theorem views_compose (S : Storage σ) (h : S.NamesOwn) (p q : Key) :
    ((S.view p).view q).Interchangeable (S.view (p.join q)) ∧
      ((S.recorded.view p).view q).Interchangeable (S.recorded.view (p.join q)) ∧
      (∀ keys s,
        ((S.view p).view q).locking.make keys s = S.locking.make (keys.map (p.join q).join) s) ∧
      (S.view Key.root).Interchangeable S := by
  have hcomposed := alike_view_view h p q
  have hrecorded := alike_view_view (S := S.recorded) (h.within Part.first) p q
  refine ⟨hcomposed.interchangeable, hrecorded.interchangeable, fun keys s => ?_,
    S.alike_view_root.interchangeable⟩
  rw [hcomposed.locking]
  rfl

end Storage

end

section

open Memory (storage)

/-- Nothing is stored at the key that a transaction through two views asks for. -/
def sampleDeeds : List Deed :=
  [.begin [⟨["c"]⟩], .transact 0 .poll, .transact 0 (.ask (.value ⟨["c"]⟩)),
    .ask (.save ⟨["d"]⟩ (Content.ofBytes [1])), .ask (.list .root),
    .transact 0 (.finish .committed)]

theorem views_compose_on_sampleDeeds :
    storage.NamesOwn ∧
      (((storage.view ⟨["a"]⟩).view ⟨["b"]⟩).use (fun n => ⟨n⟩) sampleDeeds 0
          ⟨(.empty, {}), [], []⟩).1.map Account.upshot =
        ((storage.view ⟨["a", "b"]⟩).use (fun n => ⟨n⟩) sampleDeeds 0
          ⟨(.empty, {}), [], []⟩).1.map Account.upshot ∧
      ((((storage.view ⟨["a"]⟩).view ⟨["b"]⟩).use (fun n => ⟨n⟩) sampleDeeds 0
          ⟨(.empty, {}), [], []⟩).1.map Account.upshot)[2]? =
        some (.answered ⟨.value ⟨["c"]⟩, .error (.notFound ⟨["c"]⟩)⟩) := by
  have hnames : storage.NamesOwn := Memory.namesOwn.within Part.first
  obtain ⟨hcomposed, -⟩ := Storage.views_compose storage hnames ⟨["a"]⟩ ⟨["b"]⟩
  exact ⟨hnames, hcomposed.upshots _ _ _ _, rfl⟩

end

end BlobStore
