import BlobStore.Proofs.Content.Reader
import BlobStore.Proofs.Directory.Answers
import BlobStore.Proofs.Observation

/-!
# Directories answer as memories do

A storage in a directory that was empty at first, or was not there, answers as a memory does, as
long as no value is saved or moved to where a directory must be, or below a value.

## Main definitions

* `Directory.Empty`, `Directory.Absent`: the root before the first save
* `Directory.Allows`: requests on which the directory and a memory agree
* `Directory.Mirrors`: a directory and a memory that store the same

## Main results

* `Directory.Holds.answer`, `Directory.Mirrors.answer`: both answer a request alike and store the
  same afterwards
* `Directory.answers_as_memory`: both answer all runs alike
-/

namespace BlobStore

namespace Directory

variable {dir : Directory} {key : Key} {base d d' : Disk} {root : Place} {c : Contents}

/-- Keys that fit the disk; what is saved or moved goes to a key that is not the root, and that no
stored key is under, nor it under a stored key. -/
def Allows (dir : Directory) : Request → Memory → Prop
  | .save key _, m => dir.Suits key ∧ IsFree m.contents key
  | .move source destination, m =>
    dir.Suits source ∧ dir.Suits destination ∧ IsFree m.contents destination
  | .contains key, _ | .list key, _ | .value key, _ | .delete key, _ | .metadata key, _ =>
    dir.Suits key

instance decidableIsFree (m : Memory) (key : Key) : Decidable (IsFree m.contents key) :=
  decidable_of_iff (key ≠ Key.root ∧ ∀ k ∈ m.values.keys, ¬ k.Under key ∧ ¬ key.Under k)
    (and_congr_right fun _ => forall_congr' fun k => by rw [Memory.mem_keys_iff])

instance decidableAllows (dir : Directory) :
    (r : Request) → (m : Memory) → Decidable (dir.Allows r m)
  | .save key _, m => inferInstanceAs (Decidable (dir.Suits key ∧ IsFree m.contents key))
  | .move source destination, m =>
    inferInstanceAs (Decidable
      (dir.Suits source ∧ dir.Suits destination ∧ IsFree m.contents destination))
  | .contains key, _ | .list key, _ | .value key, _ | .delete key, _ | .metadata key, _ =>
    inferInstanceAs (Decidable (dir.Suits key))

/-! ## Keys without a value -/

/-- The key that must have a value for a request to have an effect, or an answer of interest. -/
def sought? : Request → Option Key
  | .contains key | .value key | .delete key | .metadata key | .move key _ => some key
  | .list _ | .save _ _ => none

theorem suits_of_sought {m : Memory} {r : Request} (hr : dir.Allows r m)
    (hk : sought? r = some key) : dir.Suits key := by
  cases r with
  | list _ => cases hk
  | save _ _ => cases hk
  | move _ _ =>
    cases hk
    exact hr.1
  | contains _ | value _ | delete _ | metadata _ =>
    cases hk
    exact hr

/-- Both answer alike that a key has no value, and stay as they are. -/
theorem answer_missing {m : Memory} {r : Request} (hr : dir.Allows r m) (hk : sought? r = some key)
    (hfile : dir.file key d = .error (.notFound key)) (hcontains : dir.contains key d = .ok false)
    (hv : m.contents key = none) (serial : Nat) (now now' : Time) :
    (dir.answer r now (d, serial)).1.result.map r.shown =
        (m.answer r now').1.result.map r.shown ∧
      (dir.answer r now (d, serial)).2 = (d, serial) ∧ (m.answer r now').2 = m := by
  have hv : m.values.get? key = none := by simpa [Memory.contents] using hv
  cases r with
  | list scope => cases hk
  | save key content => cases hk
  | contains _ =>
    cases hk
    simp [Directory.answer, Memory.answer, OrderedMap.contains, hcontains, hv, Reply.ok]
  | value _ =>
    cases hk
    simp [Directory.answer, Memory.answer, hfile, hv, Reply.error, Except.map]
  | metadata _ =>
    cases hk
    simp [Directory.answer, Memory.answer, hfile, hv, Reply.orNotFound, Reply.error, Except.map]
  | delete _ =>
    cases hk
    simp [Directory.answer, Memory.answer, OrderedMap.contains, remove_missing hfile, hv]
  | move _ destination =>
    cases hk
    simp [Directory.answer, Memory.answer, Memory.rename, move_missing hr.2.1 hfile, hv]

/-! ## Where values are stored -/

/-- Both answer a request alike, and store the same afterwards. -/
theorem Holds.answer {m : Memory} (h : dir.Holds base root d m.contents) (hm : m.Sorted)
    {serial : Nat} (hroom : dir.HasRoom serial) {r : Request} (hr : dir.Allows r m)
    (now now' : Time) :
    (dir.answer r now (d, serial)).1.result.map r.shown =
        (m.answer r now').1.result.map r.shown ∧
      dir.Holds base root (dir.answer r now (d, serial)).2.1 (m.answer r now').2.contents ∧
      (dir.answer r now (d, serial)).2.2 ≤ serial + 1 := by
  -- a request for a key without a value is one case for all kinds of requests
  by_cases hmissing : ∃ key, sought? r = some key ∧ m.contents key = none
  · obtain ⟨key, hk, hv⟩ := hmissing
    obtain ⟨hfile, hcontains⟩ := h.file_missing (suits_of_sought hr hk) hv
    obtain ⟨hresult, hsame, hsame'⟩ := answer_missing hr hk hfile hcontains hv serial now now'
    rw [hsame, hsame']
    exact ⟨hresult, h, Nat.le_succ _⟩
  have hvalue : ∀ {key}, sought? r = some key →
      ∃ v, m.values.get? key = some v ∧ m.contents key = some v.bytes := by
    intro key hk
    cases hv : m.values.get? key with
    | none => exact absurd ⟨key, hk, by simp [Memory.contents, hv]⟩ hmissing
    | some v => exact ⟨v, rfl, by simp [Memory.contents, hv]⟩
  rw [Memory.contents_answer]
  cases r with
  | list scope =>
    refine ⟨?_, h, Nat.le_succ _⟩
    simp only [Directory.answer, Memory.answer, h.list hm hr, Reply.ok]
  | save key content =>
    obtain ⟨hk, hf⟩ := hr
    obtain ⟨hresult, hholds, hcount⟩ := h.save hk hf hroom content now
    refine ⟨?_, hholds, hcount.le⟩
    simp only [Directory.answer, Memory.answer, hresult]
    cases content.drain <;> rfl
  | contains key =>
    obtain ⟨v, hv, hc⟩ := hvalue rfl
    obtain ⟨-, -, -, -, hcontains⟩ := h.file hr hc
    refine ⟨?_, h, Nat.le_succ _⟩
    simp [Directory.answer, Memory.answer, OrderedMap.contains, hcontains, hv, Reply.ok]
  | value key =>
    obtain ⟨v, hv, hc⟩ := hvalue rfl
    obtain ⟨file, -, hbytes, hfile, -⟩ := h.file hr hc
    refine ⟨?_, h, Nat.le_succ _⟩
    simp only [Directory.answer, Memory.answer, hfile, hv, Reply.ok, Except.map, Request.shown,
      Directory.content, Content.drain_ofReader, Content.drain_ofBytes, hbytes]
    rfl
  | metadata key =>
    obtain ⟨v, hv, hc⟩ := hvalue rfl
    obtain ⟨file, -, hbytes, hfile, -⟩ := h.file hr hc
    refine ⟨?_, h, Nat.le_succ _⟩
    simp [Directory.answer, Memory.answer, hfile, hv, Reply.orNotFound, Reply.ok, Except.map,
      Request.shown, Meta.size, Meta.read, Directory.describe, Memory.describe, hbytes]
  | move source destination =>
    obtain ⟨v, hv, hc⟩ := hvalue rfl
    obtain ⟨hs, hd, hf⟩ := hr
    obtain ⟨hresult, hholds⟩ := h.move hs hd hf hc
    simp only [Directory.answer, Memory.answer, Memory.rename, Request.effect, hresult, hv, hc]
    exact ⟨rfl, hholds, Nat.le_succ _⟩
  | delete key =>
    obtain ⟨v, hv, hc⟩ := hvalue rfl
    obtain ⟨hresult, hholds⟩ := h.remove hr hc
    simp only [Directory.answer, Memory.answer, OrderedMap.contains, Request.effect, hresult, hv]
    exact ⟨rfl, hholds, Nat.le_succ _⟩

/-! ## The root before the first save -/

/-- The root is a directory below which nothing is. -/
def Empty (dir : Directory) (d : Disk) : Prop :=
  ∃ root, d.walk dir.rootPath = .ok root ∧ d.at? root = some .directory ∧ d.below root = []

/-- The root is not there, and once it is made it is an empty directory. -/
def Absent (dir : Directory) (d : Disk) : Prop :=
  d.walk dir.rootPath = .error .noEntry ∧
    ∃ d', d.makeDirectories dir.draftsPath.parent = (.ok (), d') ∧ dir.Empty d'

/-- An empty directory holds no value. -/
theorem Empty.holds (h : dir.Empty d) (hs : d.Sound) :
    ∃ root, dir.Holds d root d fun _ => none := by
  obtain ⟨root, hwalk, hdir, hbelow⟩ := h
  have hnone : ∀ way, way ≠ [] → d.at? (root ++ way) = none :=
    hs.below_isEmpty.mp (by rw [hbelow]; rfl)
  have hled : d.Leads dir.rootPath root := Disk.leads_of_walk hwalk hdir
  refine ⟨root, ⟨?_, hs, ?_, ?_, ?_⟩⟩
  · refine ⟨hled, hnone, fun _ _ => rfl, rfl, ?_, ?_, ?_⟩
    · intro way target
      by_cases hway : way = []
      · rw [hway, List.append_nil, hdir]
        simp
      · rw [hnone way hway]
        simp
    · intro way name hsome
      rw [hnone _ (by simp)] at hsome
      cases hsome
    · intro way hway
      by_cases hne : way = []
      · subst hne
        exact ⟨by simp, by simp, hled.accepted⟩
      · rw [hnone way hne] at hway
        cases hway
  · refine ⟨?_, ?_, ?_⟩
    · intro way hv bytes
      rw [hnone way hv.1]
      simp [valueAt]
    · intro key hsome
      cases hsome
    · intro way hv hat
      rw [hnone way hv.1] at hat
      cases hat
  · exact Or.inl (hnone _ (by simp))
  · intro way _
    exact hnone _ (by simp)

namespace Absent

theorem accepted (h : dir.Absent d) : Disk.refuse dir.rootPath = none := by
  obtain ⟨-, d', -, root, hwalk, -⟩ := h
  unfold Disk.walk Disk.reach at hwalk
  cases hr : Disk.refuse dir.rootPath with
  | none => rfl
  | some e => simp [hr] at hwalk

/-- The way to the root stops where nothing is. -/
theorem way (h : dir.Absent d) :
    d.strides .entry Disk.linkLimit (d.start dir.rootPath) (dir.rootPath.passes ++ [.text "."]) =
      .error .noEntry := by
  have hwalk := h.1
  unfold Disk.walk Disk.reach at hwalk
  rw [h.accepted] at hwalk
  have hsteps : d.strides .entry Disk.linkLimit (d.start dir.rootPath) dir.rootPath.steps =
      .error .noEntry := hwalk
  unfold DiskPath.steps at hsteps
  split at hsteps
  · exact hsteps
  · exact Disk.strides_error_append hsteps [.text "."]

theorem walk (h : dir.Absent d) {names : List FileName}
    (hn : ∀ name ∈ names, DiskPath.IsName name)
    (ha : Disk.refuse (dir.rootPath.descend names) = none) :
    d.walk (dir.rootPath.descend names) = .error .noEntry := by
  by_cases hroot : names = []
  · rw [hroot]
    exact h.1
  · have hns : ∀ name ∈ names, name ≠ .text "" := fun name hm => (hn name hm).1
    have hs : d.start (dir.rootPath.descend names) = d.start dir.rootPath := by
      rw [Disk.start, Disk.start, DiskPath.absolute_descend hns]
    unfold Disk.walk Disk.reach
    rw [ha, hs, DiskPath.steps_descend hroot hns]
    exact Disk.strides_append_error h.way hroot .entry

/-- No key has a value. -/
theorem file_missing (h : dir.Absent d) (hk : dir.Suits key) :
    dir.file key d = .error (.notFound key) ∧ dir.contains key d = .ok false := by
  refine Directory.file_missing (e := .noEntry) hk ?_ rfl
  unfold Disk.stat
  rw [h.walk hk.admits.isName hk.accepted]

theorem list (h : dir.Absent d) (hk : dir.Suits key) : dir.list key d = .ok [] := by
  unfold Directory.list listBy
  rw [hk.path]
  simp [Disk.stat, h.walk hk.admits.isName hk.accepted, DiskError.isMissing]

/-- The first draft finds the root made, as if it had been there. -/
theorem makeDirectories (h : dir.Absent d) (hs : d.Sound)
    (ha : Disk.Admits dir.rootPath [draftsName]) :
    ∃ d', d.makeDirectories dir.draftsPath.parent = (.ok (), d') ∧ d'.Sound ∧ dir.Empty d' ∧
      d.makeDirectories dir.draftsPath = d'.makeDirectories dir.draftsPath := by
  obtain ⟨d', hmake, hempty⟩ := h.2
  have hparent : dir.draftsPath.parent = dir.rootPath.bare :=
    DiskPath.parent_child isName_draftsName
  have hancestry : dir.draftsPath.ancestry = dir.draftsPath :: dir.rootPath.bare.ancestry :=
    DiskPath.ancestry_child isName_draftsName
  have hs' : d'.Sound := by
    have hmade := hs.makeDirectories dir.draftsPath.parent
    rw [hmake] at hmade
    exact hmade
  obtain ⟨root, hholds⟩ := hempty.holds hs'
  have hfirst : d.ensureDirectory dir.draftsPath = .error .noEntry :=
    Disk.ensureDirectory_child isName_draftsName ha.accepted h.way
  obtain ⟨d'', hlast⟩ : ∃ d'', d'.ensureDirectory dir.draftsPath = .ok d'' := by
    have hdir : d'.at? (root ++ []) = some .directory := by simpa using hholds.rooted.directory
    obtain ⟨d'', hmade, -⟩ :=
      hholds.rooted.ensureDirectory hs' ha hdir (hholds.rooted.empty _ (by simp))
    exact ⟨d'', hmade⟩
  refine ⟨d', hmake, hs', hempty, ?_⟩
  unfold Disk.makeDirectories at hmake ⊢
  rw [hparent] at hmake
  rw [hancestry, Disk.makeFirst, Disk.makeFirst, hfirst, hlast, hmake]
  simp only [hlast]

/-- A save makes the root, and goes on as if it had been there. -/
theorem save (h : dir.Absent d) (hs : d.Sound) (ha : Disk.Admits dir.rootPath [draftsName])
    {p : DiskPath} (hpath : dir.path key = .ok p) (content : Content) (now : Time) (serial : Nat) :
    ∃ d', d.makeDirectories dir.draftsPath.parent = (.ok (), d') ∧ d'.Sound ∧ dir.Empty d' ∧
      dir.save key content now (d, serial) = dir.save key content now (d', serial) := by
  obtain ⟨d', hmake, hs', hempty, hdrafts⟩ := h.makeDirectories hs ha
  refine ⟨d', hmake, hs', hempty, ?_⟩
  unfold Directory.save startSave openDraft
  simp only [hpath, hdrafts]

end Absent

/-! ## Agreement -/

/-- A directory and a memory that store the same. The root of the directory may not be made yet; at
most `n` drafts were opened. -/
structure Mirrors (dir : Directory) (n : Nat) (s : Disk × Nat) (m : Memory) : Prop where
  drafts : s.2 ≤ n
  values : m.Sorted
  contents : (∃ base root, dir.Holds base root s.1 m.contents) ∨
    (dir.Absent s.1 ∧ s.1.Sound ∧ m.contents = fun _ => none)

namespace Mirrors

variable {n : Nat} {s : Disk × Nat} {m : Memory}

/-- Both answer a request alike, and store the same afterwards. -/
theorem answer (h : dir.Mirrors n s m) (hroom : dir.HasRoom s.2) {r : Request}
    (hr : dir.Allows r m) (now now' : Time) :
    (dir.answer r now s).1.result.map r.shown = (m.answer r now').1.result.map r.shown ∧
      dir.Mirrors (n + 1) (dir.answer r now s).2 (m.answer r now').2 := by
  obtain ⟨d, serial⟩ := s
  have hvalues := h.values.answer r now'
  rcases h.contents with ⟨base, root, hholds⟩ | ⟨habsent, hs, hnone⟩
  · obtain ⟨hresult, hafter, hcount⟩ := hholds.answer h.values hroom hr now now'
    exact ⟨hresult, hcount.trans (Nat.succ_le_succ h.drafts), hvalues, Or.inl ⟨base, root, hafter⟩⟩
  · by_cases hsave : ∃ key content, r = .save key content
    · obtain ⟨key, content, rfl⟩ := hsave
      obtain ⟨d', -, hs', hempty, he⟩ := habsent.save hs
        (hroom.admits.of_append habsent.accepted) hr.1.path content now serial
      obtain ⟨root, hholds⟩ := hempty.holds hs'
      rw [← hnone] at hholds
      obtain ⟨hresult, hafter, hcount⟩ := hholds.answer h.values hroom hr now now'
      simp only [Directory.answer] at hresult hafter hcount ⊢
      rw [he]
      exact ⟨hresult, hcount.trans (Nat.succ_le_succ h.drafts), hvalues, Or.inl ⟨d', root, hafter⟩⟩
    · have hsame : (dir.answer r now (d, serial)).1.result.map r.shown =
            (m.answer r now').1.result.map r.shown ∧
          (dir.answer r now (d, serial)).2 = (d, serial) ∧ (m.answer r now').2 = m := by
        cases hk : sought? r with
        | some key =>
          obtain ⟨hfile, hcontains⟩ := habsent.file_missing (suits_of_sought hr hk)
          exact answer_missing hr hk hfile hcontains (by rw [hnone]) serial now now'
        | none =>
          cases r with
          | list scope =>
            have hnested : m.nested scope = [] :=
              List.eq_nil_iff_forall_not_mem.mpr fun k hm => by
                have hsome := ((h.values.mem_nested scope k).mp hm).1
                rw [hnone] at hsome
                cases hsome
            refine ⟨?_, rfl, rfl⟩
            simp only [Directory.answer, Memory.answer, habsent.list hr, hnested, Reply.ok]
          | save key content => exact absurd ⟨key, content, rfl⟩ hsave
          | contains _ | value _ | delete _ | metadata _ | move _ _ => cases hk
      obtain ⟨hresult, hstate, hstate'⟩ := hsame
      rw [hstate, hstate']
      exact ⟨hresult, Nat.le_succ_of_le h.drafts, h.values, Or.inr ⟨habsent, hs, hnone⟩⟩

end Mirrors

/-- **Agreement.** A directory whose root is empty at first, or is not there, and a memory that is
empty at first answer every run of requests alike, if the keys fit the disk, nothing is saved or
moved to the root or to a key that a stored key is under or that is under a stored key, and the disk
has room for the names of drafts. -/
theorem answers_as_memory (dir : Directory) (d : Disk) (hs : d.Sound)
    (hroot : dir.Empty d ∨ dir.Absent d) (clock clock' : Nat → Time) (requests : List Request)
    (hroom : ∀ serial < requests.length, dir.HasRoom serial)
    (hr : Memory.backend.Allows clock' dir.Allows requests 0 Memory.empty) :
    dir.backend.observe clock requests 0 (d, 0) =
      Memory.backend.observe clock' requests 0 Memory.empty := by
  have hstart : dir.Mirrors 0 (d, 0) Memory.empty := by
    refine ⟨Nat.le_refl 0, OrderedMap.sorted_empty, ?_⟩
    rcases hroot with hempty | habsent
    · obtain ⟨root, hholds⟩ := hempty.holds hs
      exact Or.inl ⟨d, root, hholds⟩
    · exact Or.inr ⟨habsent, hs, rfl⟩
  refine Backend.observe_congr (R := dir.Mirrors) ?_ clock clock' (Nat.le_of_eq (Nat.zero_add _))
    hstart hr
  intro n r now now' s m hn hmirrors hallowed
  exact hmirrors.answer (hroom s.2 (Nat.lt_of_le_of_lt hmirrors.drafts hn)) hallowed now now'

/-- A directory that is not there on an empty disk, nor is the one that it stands in. -/
def sampleDirectory : Directory := ⟨"/srv/store", 7⟩

/-- A run in which directories are read, a path leads through a value, directories are left empty by
a move and a removal, a value takes the place of such a directory, and a save fails. -/
def sampleRun : List Request :=
  [.save ⟨["a", "b", "c"]⟩ (.ofStream [.chunk [1], .chunk [2]] none),
    .save ⟨["d"]⟩ (.ofStream [.chunk [3], .failure ⟨.other, "cut"⟩] none),
    .contains ⟨["a", "b"]⟩, .value ⟨["a", "b", "c", "x"]⟩, .move ⟨["a", "b", "c"]⟩ ⟨["a", "d"]⟩,
    .list .root, .delete ⟨["a", "d"]⟩, .save ⟨["a"]⟩ (.ofBytes [4]), .metadata ⟨["a"]⟩]

theorem answers_as_memory_on_sampleRun :
    ({} : Disk).Sound ∧ sampleDirectory.Absent {} ∧
      (∀ serial < sampleRun.length, sampleDirectory.HasRoom serial) ∧
      Memory.backend.Allows (fun _ => ⟨0⟩) sampleDirectory.Allows sampleRun 0 Memory.empty ∧
      sampleDirectory.backend.observe (fun n => ⟨n⟩) sampleRun 0 ({}, 0) =
        Memory.backend.observe (fun _ => ⟨0⟩) sampleRun 0 Memory.empty := by
  have habsent : sampleDirectory.Absent {} :=
    ⟨by decide +kernel,
      (({} : Disk).put (namesOf ["srv"]) .directory).put (namesOf ["srv", "store"]) .directory,
      by decide +kernel, namesOf ["srv", "store"], by decide +kernel, by decide +kernel,
      by decide +kernel⟩
  have hroom : ∀ serial < sampleRun.length, sampleDirectory.HasRoom serial := by decide
  have hallows : Memory.backend.Allows (fun _ => ⟨0⟩) sampleDirectory.Allows sampleRun 0
      Memory.empty := by decide +kernel
  exact ⟨Disk.sound_empty, habsent, hroom, hallows, answers_as_memory sampleDirectory {}
    Disk.sound_empty (Or.inr habsent) (fun n => ⟨n⟩) (fun _ => ⟨0⟩) sampleRun hroom hallows⟩

end Directory

end BlobStore
