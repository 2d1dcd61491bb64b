import BlobStore.Database.File
import BlobStore.Directory
import BlobStore.Logged
import BlobStore.Proofs.View

/-!
# Keys that errors name

A request that fails is answered by an error that may name a key. Those who ask understand such a
key only if it is one that they have asked about, or lies under one: a listing may come across
something below its scope that cannot be read. All backends keep to this, and so does what is
wrapped around them.

## Main definitions

* `StorageError.About`: errors that name none but some keys and those under them
* `Blames`: results that are no other errors
* `Backend.NamesOwn`: backends whose errors are about the keys of the request

## Main results

* `Memory.namesOwn`, `Database.namesOwn`, `DatabaseFile.namesOwn`, `Directory.namesOwn`
* `Backend.NamesOwn.within`, `Backend.NamesOwn.logged`, `Backend.NamesOwn.view`
-/

namespace BlobStore

/-! ## Errors and results -/

/-- An error about some keys: if it names a key, then one of these, or one that starts with one. -/
def StorageError.About (keys : List Key) (e : StorageError) : Prop :=
  ∀ k, e.key? = some k → ∃ key ∈ keys, k.startsWith key

/-- A result that is an error about some keys, if it is an error. -/
def Blames {α : Type} (keys : List Key) (result : Except StorageError α) : Prop :=
  ∀ e, result = .error e → e.About keys

namespace StorageError

variable {keys : List Key} {e : StorageError} {key : Key}

theorem about_of_mem (he : e.key? = some key) (hk : key ∈ keys) : e.About keys := by
  intro k h
  obtain rfl := Option.some.inj (he.symm.trans h)
  exact ⟨key, hk, key.startsWith_self⟩

theorem about_of_none (he : e.key? = none) : e.About keys := by
  intro k h
  rw [he] at h
  cases h

@[simp] theorem key?_ofIo (key : Key) (cause : IoError) : (ofIo key cause).key? = some key := by
  unfold ofIo
  split <;> rfl

theorem key?_mapKey (f : Key → Key) (e : StorageError) : (e.mapKey f).key? = e.key?.map f := by
  cases e <;> rfl

end StorageError

namespace Blames

variable {α β : Type} {keys : List Key} {result : Except StorageError α}

theorem ok (value : α) : Blames keys (.ok value : Except StorageError α) := nofun

theorem error {e : StorageError} (h : e.About keys) :
    Blames keys (.error e : Except StorageError α) := by
  rintro _ ⟨⟩
  exact h

theorem map (h : Blames keys result) (f : α → β) : Blames keys (result.map f) := by
  cases result with
  | ok value => exact ok (f value)
  | error e => exact error (h e rfl)

end Blames

/-! ## Backends -/

/-- The errors of a backend are about the keys that it is asked about. -/
structure Backend.NamesOwn {σ : Type} (b : Backend σ) : Prop where
  answer : ∀ r now s, Blames r.named (b.answer r now s).1.result
  start : ∀ key size now s, Blames [key] (b.intake.start key size now s).1.result
  finish : ∀ key size draft now s, Blames [key] (b.intake.finish key size draft now s).1.result
  fail : ∀ key size draft cause now s,
    Blames [key] (b.intake.fail key size draft cause now s).1.result

section

variable {σ : Type}

/-- Saves that are answered at their ends are like all requests. -/
theorem Backend.namesOwn_gathering {identifier : String}
    {answer : (r : Request) → Time → σ → Reply r.Answer × σ}
    (h : ∀ r now s, Blames r.named (answer r now s).1.result) :
    Backend.NamesOwn ⟨identifier, answer, .gathering answer⟩ where
  answer := h
  start _ _ _ _ := Blames.ok _
  finish _ _ _ now s := h (.save _ _) now s
  fail _ _ _ _ now s := h (.save _ _) now s

namespace Backend.NamesOwn

variable {b : Backend σ} (h : b.NamesOwn)

include h

theorem within {ω : Type} (part : Part ω σ) : (b.within part).NamesOwn where
  answer r now w := h.answer r now (part.get w)
  start key size now w := h.start key size now (part.get w)
  finish key size draft now w := h.finish key size draft now (part.get w)
  fail key size draft cause now w := h.fail key size draft cause now (part.get w)

theorem logged : b.logged.NamesOwn where
  answer := h.answer
  start key size now s := by
    have hstart := h.start key size now s
    simp only [Backend.logged, Intake.logged]
    cases hresult : (b.intake.start key size now s).1.result with
    | ok draft =>
      simp only [hresult]
      exact Blames.ok draft
    | error e => exact Blames.error (hstart e hresult)
  finish := h.finish
  fail := h.fail

end Backend.NamesOwn

end

/-! ## Views -/

namespace View

variable {scope : Key} {keys : List Key} {e : StorageError}

/-- Through a view an error is about the keys of the view. -/
theorem about_inward (h : e.About (keys.map scope.join)) : (inward scope e).About keys := by
  intro k hk
  rw [inward, StorageError.key?_mapKey] at hk
  obtain ⟨named, hnamed, rfl⟩ := Option.map_eq_some_iff.mp hk
  obtain ⟨_, hmem, hstart⟩ := h named hnamed
  obtain ⟨key, hkey, rfl⟩ := List.mem_map.mp hmem
  obtain ⟨rest, rfl⟩ := Key.exists_join_of_startsWith hstart
  refine ⟨key, hkey, ?_⟩
  rw [Key.join_join, inner_join]
  exact Key.startsWith_join key rest

theorem blames_inward {α : Type} {result : Except StorageError α}
    (h : Blames (keys.map scope.join) result) : Blames keys (result.mapError (inward scope)) := by
  cases result with
  | ok value => exact Blames.ok value
  | error e => exact Blames.error (about_inward (h e rfl))

theorem blames_relay (r : Request) (reply : Reply (r.mapKeys scope.join).Answer)
    (h : Blames (keys.map scope.join) reply.result) :
    Blames keys (relay scope r reply).result := by
  cases r with
  | list k => exact (blames_inward h).map _
  | contains _ | save _ _ | value _ | move _ _ | delete _ | metadata _ => exact blames_inward h

end View

theorem Backend.NamesOwn.view {σ : Type} {b : Backend σ} (h : b.NamesOwn) (scope : Key) :
    (b.view scope).NamesOwn where
  answer r now s := by
    have hanswer := h.answer (r.mapKeys scope.join) now s
    rw [Request.named_mapKeys] at hanswer
    exact View.blames_relay r _ hanswer
  start key size now s := View.blames_inward (h.start (scope.join key) size now s)
  finish key size draft now s := View.blames_inward (h.finish (scope.join key) size draft now s)
  fail key size draft cause now s :=
    View.blames_inward (h.fail (scope.join key) size draft cause now s)

/-! ## Memories and databases -/

theorem blames_orNotFound {α : Type} (key : Key) (value? : Option α) :
    Blames [key] (Reply.orNotFound key value?).result := by
  cases value? with
  | some value => exact Blames.ok value
  | none => exact Blames.error (StorageError.about_of_mem rfl List.mem_cons_self)

theorem blames_notFound {α : Type} {key : Key} {keys : List Key} (h : key ∈ keys) :
    Blames keys (.error (.notFound key) : Except StorageError α) :=
  Blames.error (StorageError.about_of_mem rfl h)

theorem Memory.namesOwn : Memory.backend.NamesOwn := by
  refine Backend.namesOwn_gathering fun r now m => ?_
  cases r with
  | contains _ | list _ => exact Blames.ok _
  | save key content =>
    simp only [answer]
    split
    · exact Blames.ok ()
    · exact Blames.error (StorageError.about_of_none rfl)
  | value key | delete key | move key _ =>
    simp only [answer]
    split
    · exact Blames.ok _
    · exact blames_notFound List.mem_cons_self
  | metadata key => exact blames_orNotFound key _

theorem Request.subject_mem_named (r : Request) : r.subject ∈ r.named := by
  cases r <;> exact List.mem_cons_self

theorem Database.blames_perform (r : Request) (now : Time) (d : Database) :
    Blames r.named (d.perform r now).1.result := by
  cases r with
  | contains _ | list _ => exact Blames.ok _
  | save key content =>
    simp only [perform]
    split
    · exact Blames.ok ()
    · exact Blames.error (StorageError.about_of_none rfl)
  | value key | metadata key => exact blames_orNotFound key _
  | delete key =>
    simp only [perform]
    split
    · exact Blames.ok ()
    · exact blames_notFound List.mem_cons_self
  | move source destination =>
    simp only [perform]
    split <;> split
    · exact Blames.ok ()
    · exact blames_notFound List.mem_cons_self
    · exact Blames.ok ()
    · exact blames_notFound List.mem_cons_self

/-- A refused request is an error about the key that reports on it name. -/
theorem Database.blames_answer (r : Request) (now : Time) (d : Database) :
    Blames r.named (d.answer r now).1.result := by
  unfold answer
  split
  · exact Blames.error (StorageError.about_of_mem rfl r.subject_mem_named)
  · exact d.blames_perform r now

theorem Database.namesOwn (path : String) : (Database.backend path).NamesOwn :=
  Backend.namesOwn_gathering fun r now d => d.blames_answer r now

/-- A change that cannot be written is an error about the key that reports on the request name. -/
theorem DatabaseFile.namesOwn (path : String) (f : DatabaseFile) : (f.backend path).NamesOwn := by
  refine Backend.namesOwn_gathering fun r now s => ?_
  have hanswer := s.2.blames_answer r now
  simp only [answer]
  split
  · exact hanswer
  · split
    · exact hanswer
    · exact Blames.error (StorageError.about_of_mem rfl r.subject_mem_named)

/-! ## Directories -/

namespace Directory

variable {dir : Directory} {key scope : Key} {keys : List Key} {d : Disk}

theorem about_failure (e : DiskError) (h : key ∈ keys) : (failure key e).About keys :=
  StorageError.about_of_mem (StorageError.key?_ofIo key e.toIo) h

theorem blames_path (dir : Directory) (h : key ∈ keys) : Blames keys (dir.path key) := by
  unfold path
  split
  · exact Blames.error (StorageError.about_of_mem rfl h)
  · exact Blames.ok _

theorem blames_file (dir : Directory) (h : key ∈ keys) (d : Disk) :
    Blames keys (dir.file key d) := by
  have hpath := dir.blames_path h
  unfold file
  split
  · exact Blames.error (hpath _ ‹_›)
  · split
    · exact Blames.ok _
    · exact blames_notFound h
    · refine Blames.error ?_
      split
      · exact StorageError.about_of_mem rfl h
      · exact about_failure _ h

theorem blames_contains (dir : Directory) (key : Key) (d : Disk) :
    Blames [key] (dir.contains key d) := by
  have hpath := dir.blames_path (List.mem_singleton.mpr (rfl : key = key))
  unfold contains
  split
  · exact Blames.error (hpath _ ‹_›)
  · split
    · exact Blames.ok true
    · exact Blames.ok false
    · split
      · exact Blames.ok false
      · exact Blames.error (about_failure _ List.mem_cons_self)

/-- A sweep is on its way below a scope. -/
def Sweep.Below (scope : Key) (sweep : Sweep) : Prop :=
  ∀ p key, (p, key) ∈ sweep.pending → key.startsWith scope

theorem Sweep.Below.meet {sweep : Sweep} (h : sweep.Below scope) (hk : key.startsWith scope)
    (p : DiskPath) (entry : FileName × DiskEntry) : (Sweep.meet p key sweep entry).Below scope := by
  obtain ⟨name, entry⟩ := entry
  simp only [Sweep.meet]
  split
  · exact h
  · cases entry with
    | directory =>
      intro q k hmem
      rcases List.mem_cons.mp hmem with he | hmem
      · cases he
        exact Key.startsWith_child hk name.lossy
      · exact h q k hmem
    | file _ | link _ => exact h

theorem Sweep.Below.meets {sweep : Sweep} (h : sweep.Below scope) (hk : key.startsWith scope)
    (p : DiskPath) (entries : List (FileName × DiskEntry)) :
    (entries.foldl (Sweep.meet p key) sweep).Below scope := by
  induction entries generalizing sweep with
  | nil => exact h
  | cons entry rest ih => exact ih (h.meet hk p entry)

/-- A sweep fails at a directory that it has come to, which is below its scope. -/
theorem Sweep.Below.blames {read : DiskPath → Except DiskError (List (FileName × DiskEntry))}
    (n : Nat) {sweep : Sweep} (h : sweep.Below scope) :
    Blames [scope] (Sweep.run read n sweep) := by
  -- on the directories that may still be read; whatever is pending stays below the scope
  induction n generalizing sweep with
  | zero => exact Blames.ok sweep
  | succ n ih =>
    obtain ⟨_ | ⟨⟨p, key⟩, pending⟩, found⟩ := sweep
    · exact Blames.ok _
    · have hkey : key.startsWith scope := h p key List.mem_cons_self
      have hrest : Sweep.Below scope ⟨pending, found⟩ :=
        fun q k hmem => h q k (List.mem_cons_of_mem _ hmem)
      simp only [Sweep.run]
      split
      · exact ih (hrest.meets hkey p _)
      · split
        · exact ih hrest
        · refine Blames.error fun k hk => ⟨scope, List.mem_cons_self, ?_⟩
          rw [failure, StorageError.key?_ofIo] at hk
          cases hk
          exact hkey

theorem blames_list (dir : Directory) (scope : Key) (d : Disk) :
    Blames [scope] (dir.list scope d) := by
  have hpath := dir.blames_path (List.mem_singleton.mpr (rfl : scope = scope))
  unfold list listBy
  split
  · exact Blames.error (hpath _ ‹_›)
  · rename_i p _
    split
    · split
      · exact Blames.ok []
      · exact Blames.error (about_failure _ List.mem_cons_self)
    · have hstart : Sweep.Below scope ⟨[(p, scope)], []⟩ := by
        intro q k hmem
        cases List.mem_singleton.mp hmem
        exact scope.startsWith_self
      have hrun : Blames [scope]
          (Sweep.run d.readDirectory (d.entries.size + 1) ⟨[(p, scope)], []⟩) := hstart.blames _
      split
      · exact Blames.error (hrun _ ‹_›)
      · exact Blames.ok _
    · exact Blames.ok []

theorem blames_install {unmade unmoved : DiskError → StorageError}
    (hmade : ∀ e, (unmade e).About keys) (hmoved : ∀ e, (unmoved e).About keys)
    (source target : DiskPath) (d : Disk) :
    Blames keys (install source target unmade unmoved d).1 := by
  unfold install
  split
  · exact Blames.error (hmade _)
  · split
    · exact Blames.error (hmoved _)
    · exact Blames.ok ()

theorem blames_startSave (dir : Directory) (key : Key) (now : Time) (s : Disk × Nat) :
    Blames [key] (dir.startSave key now s).1.result := by
  obtain ⟨d, serial⟩ := s
  have hpath := dir.blames_path (List.mem_singleton.mpr (rfl : key = key))
  simp only [startSave]
  split
  · exact Blames.error (hpath _ ‹_›)
  · split
    · exact Blames.error (about_failure _ List.mem_cons_self)
    · exact Blames.ok _

theorem blames_finishSave (dir : Directory) (key : Key) (draft : Draft) (d : Disk) :
    Blames [key] (dir.finishSave key draft d).1.result := by
  have hpath := dir.blames_path (List.mem_singleton.mpr (rfl : key = key))
  have hblame : ∀ e : DiskError, (StorageError.io key e.toIo).About [key] :=
    fun e => StorageError.about_of_mem rfl List.mem_cons_self
  unfold finishSave
  split
  · exact Blames.error (hpath _ ‹_›)
  · exact Blames.ok ()
  · rename_i target file _ _
    have hinstall := blames_install hblame hblame (dir.draftPath file.serial) target d
    dsimp only
    split
    · rename_i e _ he
      exact Blames.error (hinstall e (congrArg Prod.fst he))
    · exact Blames.ok ()

theorem blames_failSave (dir : Directory) (draft : Draft) (cause : IoError) (d : Disk) :
    Blames keys (dir.failSave draft cause d).1.result :=
  Blames.error (StorageError.about_of_none rfl)

theorem blames_save (dir : Directory) (key : Key) (content : Content) (now : Time)
    (s : Disk × Nat) : Blames [key] (dir.save key content now s).1.result := by
  have hstart := dir.blames_startSave key now s
  unfold save
  split
  · rename_i e _ _ he
    exact Blames.error (hstart e (by rw [he]))
  · dsimp only
    split
    · exact dir.blames_finishSave key _ _
    · exact dir.blames_failSave _ _ _

/-- A move is an error about its destination if there is no place for it. -/
theorem blames_move (dir : Directory) (source destination : Key) (d : Disk) :
    Blames [source, destination] (dir.move source destination d).1.result := by
  have hsource : source ∈ [source, destination] := List.mem_cons_self
  have hdestination : destination ∈ [source, destination] := by simp
  unfold move
  split
  · exact Blames.error (dir.blames_path hdestination _ ‹_›)
  · split
    · exact Blames.error (dir.blames_file hsource d _ ‹_›)
    · exact Blames.error (dir.blames_path hsource _ ‹_›)
    · rename_i target _ _ _ _ origin _ _
      split
      · exact Blames.ok ()
      · have hunmade : ∀ e : DiskError,
            (StorageError.io destination e.toIo).About [source, destination] :=
          fun e => StorageError.about_of_mem rfl hdestination
        have hinstall := blames_install hunmade (fun e => about_failure e hsource) origin target d
        dsimp only
        split
        · rename_i e _ he
          exact Blames.error (hinstall e (congrArg Prod.fst he))
        · exact Blames.ok ()

theorem blames_remove (dir : Directory) (key : Key) (d : Disk) :
    Blames [key] (dir.remove key d).1.result := by
  have hkey : key ∈ [key] := List.mem_cons_self
  unfold remove
  split
  · exact Blames.error (dir.blames_file hkey d _ ‹_›)
  · exact Blames.error (dir.blames_path hkey _ ‹_›)
  · split
    · exact Blames.error (about_failure _ hkey)
    · exact Blames.ok ()

theorem namesOwn (dir : Directory) : dir.backend.NamesOwn where
  answer r now s := by
    obtain ⟨d, count⟩ := s
    cases r with
    | contains key => exact dir.blames_contains key d
    | list scope => exact dir.blames_list scope d
    | save key content => exact dir.blames_save key content now (d, count)
    | value key | metadata key => exact (dir.blames_file List.mem_cons_self d).map _
    | move source destination => exact dir.blames_move source destination d
    | delete key => exact dir.blames_remove key d
  start key _ now s := dir.blames_startSave key now s
  finish key _ draft _ s := dir.blames_finishSave key draft s.1
  fail _ _ draft cause _ s := dir.blames_failSave draft cause s.1

end Directory

end BlobStore
