import BlobStore.Proofs.Database
import BlobStore.Proofs.Directory.SameValues

/-!
# Failed requests

What a storage stores is not changed by a request that fails, whatever it was. A memory and a
database stay as they were altogether, and so does the file that a database is in. Of a directory
the values stay.

## Main results

* `failed_request_keeps_values`: failed requests to memories, databases and directories
* `Directory.read_after_failed_move`: what is read of a directory may change
-/

namespace BlobStore

/-- **Failed requests.** A memory or a database is left as it was by a request that fails, and so is
a database in a file, together with the disk. In a run on a directory whose root is empty at first,
or is not there, a request that fails keeps the values and leaves no draft. -/
theorem failed_request_keeps_values (r : Request) (now : Time) (e : StorageError) :
    (∀ m : Memory, (m.answer r now).1.result = .error e → (m.answer r now).2 = m) ∧
    (∀ database : Database,
      (database.answer r now).1.result = .error e → (database.answer r now).2 = database) ∧
    (∀ (f : DatabaseFile) (path : String) (s : Disk × Database),
      (f.answer path r now s).1.result = .error e → (f.answer path r now s).2 = s) ∧
    ∀ (dir : Directory) (d : Disk), dir.Vacant d ∨ dir.Unmade d →
      ∀ (clock : Nat → Time) (requests : List Request),
        (∀ q ∈ requests ++ [r], ∀ key ∈ q.named, Directory.IsShown key) →
          ∀ s : Disk × Nat, dir.backend.after clock requests 0 (d, 0) = s →
            (dir.answer r now s).1.result = .error e → dir.SameValues s (dir.answer r now s).2 := by
  refine ⟨fun _ => Memory.answer_of_error, fun _ => Database.answer_of_error,
    fun _ _ _ => DatabaseFile.answer_of_error, ?_⟩
  intro dir d hd clock requests hshown s hs he
  have hstart : dir.Reached d := by
    rcases hd with hvacant | hunmade
    · obtain ⟨root, hrests⟩ := hvacant.rests
      exact Or.inr ⟨d, root, hvacant.settled, hrests⟩
    · exact Or.inl hunmade
  have hreached := hstart.after clock fun q (hq : q ∈ requests) => hshown q (by simp [hq])
  rw [hs] at hreached
  exact (hreached.answer (hshown r (by simp)) now).2 e he

namespace Directory

theorem unmade_sampleDirectory : sampleDirectory.Unmade {} :=
  ⟨Disk.sound_empty, by decide +kernel, vacantDisk, by decide +kernel, vacant_vacantDisk⟩

/-- A run on a root that is not there; what is saved first is in the way of what is saved then. -/
def startedState : Disk × Nat :=
  sampleDirectory.backend.after (fun n => ⟨n⟩) savedFirst 0 ({}, 0)

theorem failed_request_keeps_values_on_samples :
    ((Memory.empty.answer (.delete ⟨["a"]⟩) ⟨0⟩).1.result = .error (.notFound ⟨["a"]⟩) ∧
      (Memory.empty.answer (.delete ⟨["a"]⟩) ⟨0⟩).2 = Memory.empty) ∧
    ((Database.empty.answer (.move ⟨["a"]⟩ ⟨["b"]⟩) ⟨0⟩).1.result = .error (.notFound ⟨["a"]⟩) ∧
      (Database.empty.answer (.move ⟨["a"]⟩ ⟨["b"]⟩) ⟨0⟩).2 = Database.empty) ∧
    (∃ e, (({ Database.sampleFile with writable := false } : DatabaseFile).answer "store.db"
          (.save ⟨["a"]⟩ (.ofBytes [1])) ⟨0⟩ (Database.sampleDisk, Database.empty)).1.result =
        .error e ∧
      (({ Database.sampleFile with writable := false } : DatabaseFile).answer "store.db"
        (.save ⟨["a"]⟩ (.ofBytes [1])) ⟨0⟩ (Database.sampleDisk, Database.empty)).2 =
        (Database.sampleDisk, Database.empty)) ∧
    sampleDirectory.Unmade {} ∧
      (∀ q ∈ savedFirst ++ [.save ⟨["a"]⟩ secondContent], ∀ key ∈ q.named, IsShown key) ∧
      (sampleDirectory.answer (.save ⟨["a"]⟩ secondContent) ⟨1⟩ startedState).1.result =
        .error (.io ⟨["a"]⟩ DiskError.isDirectory.toIo) ∧
      sampleDirectory.SameValues startedState
        (sampleDirectory.answer (.save ⟨["a"]⟩ secondContent) ⟨1⟩ startedState).2 := by
  have hmissing : (Memory.empty.answer (.delete ⟨["a"]⟩) ⟨0⟩).1.result =
      .error (.notFound ⟨["a"]⟩) := by decide +kernel
  have hunmoved : (Database.empty.answer (.move ⟨["a"]⟩ ⟨["b"]⟩) ⟨0⟩).1.result =
      .error (.notFound ⟨["a"]⟩) := by decide +kernel
  have hshown : ∀ q ∈ savedFirst ++ [.save ⟨["a"]⟩ secondContent], ∀ key ∈ q.named,
      IsShown key := by decide
  have hfailed : (sampleDirectory.answer (.save ⟨["a"]⟩ secondContent) ⟨1⟩ startedState).1.result =
      .error (.io ⟨["a"]⟩ DiskError.isDirectory.toIo) := by decide +kernel
  refine ⟨⟨hmissing, (failed_request_keeps_values _ _ _).1 _ hmissing⟩,
    ⟨hunmoved, (failed_request_keeps_values _ _ _).2.1 _ hunmoved⟩,
    ⟨_, rfl, (failed_request_keeps_values _ _ _).2.2.1 _ _ _ rfl⟩, unmade_sampleDirectory, hshown,
    hfailed, ?_⟩
  obtain ⟨-, -, -, hdirectory⟩ := failed_request_keeps_values (.save ⟨["a"]⟩ secondContent) ⟨1⟩
    (.io ⟨["a"]⟩ DiskError.isDirectory.toIo)
  exact hdirectory sampleDirectory {} (Or.inr unmade_sampleDirectory) (fun n => ⟨n⟩) savedFirst
    hshown startedState rfl hfailed

/-- A name of so many bytes. -/
def nameOf (length : Nat) : String := String.ofList (List.replicate length 'x')

theorem toList_nameOf (length : Nat) : (nameOf length).toList = List.replicate length 'x' :=
  String.toList_ofList

/-- A name of one byte more than a disk takes. -/
def longName : String := nameOf 256

/-! What is evaluated of the path is stated for any name, so that the long one is not unfolded. -/

theorem path_new {name : String} (h : isPlain name = true) :
    sampleDirectory.path ⟨["new", name]⟩ = .ok ⟨namesOf ["", "srv", "store", "new", name]⟩ := by
  have hnew : isPlain "new" = true := by decide
  unfold Directory.path
  simp only [List.find?, h, hnew]
  rfl

theorem path_longName :
    sampleDirectory.path ⟨["new", longName]⟩ =
      .ok ⟨namesOf ["", "srv", "store", "new", longName]⟩ := by
  have hslash : '/' ∉ longName.toList := by
    rw [longName, toList_nameOf]
    exact fun h => absurd (List.eq_of_mem_replicate h) (by decide)
  exact path_new (isPlain_iff.mpr ⟨by decide +kernel, by decide +kernel, by decide +kernel, hslash⟩)

theorem walk_new (d : Disk) {name : String} (hne : name ≠ "") (hnul : '\x00' ∉ name.toList)
    (hsize : DiskPath.size ⟨namesOf ["", "srv", "store", "new", name]⟩ < Disk.pathLimit) :
    d.walk ⟨namesOf ["", "srv", "store", "new", name]⟩ =
      d.strides .entry Disk.linkLimit [] (namesOf ["srv", "store", "new", name]) := by
  have haccepted : Disk.refuse ⟨namesOf ["", "srv", "store", "new", name]⟩ = none := by
    refine Disk.refuse_eq_none_iff.mpr ⟨?_, rfl, hsize⟩
    intro piece hp
    simp only [namesOf_cons, namesOf_nil, List.mem_cons, List.not_mem_nil, or_false] at hp
    rcases hp with rfl | rfl | rfl | rfl | rfl
    case inr.inr.inr.inr => simpa [FileName.hasNul] using hnul
    all_goals decide
  have hsteps : DiskPath.steps ⟨namesOf ["", "srv", "store", "new", name]⟩ =
      namesOf ["srv", "store", "new", name] := by
    simp [DiskPath.steps, DiskPath.closed, DiskPath.passes, hne]
  unfold Disk.walk Disk.reach
  rw [haccepted, hsteps]
  rfl

/-- The path is not refused; the name is only found to be too long where a walk comes to it. -/
theorem walk_longName (d : Disk) :
    d.walk ⟨namesOf ["", "srv", "store", "new", longName]⟩ =
      d.strides .entry Disk.linkLimit [] (namesOf ["srv", "store", "new", longName]) := by
  have hnul : '\x00' ∉ longName.toList := by
    rw [longName, toList_nameOf]
    exact fun h => absurd (List.eq_of_mem_replicate h) (by decide)
  exact walk_new d (by decide +kernel) hnul (by decide +kernel)

theorem contains_of_walk_error {dir : Directory} {key : Key} {p : DiskPath} {d : Disk}
    {e : DiskError} (hp : dir.path key = .ok p) (hw : d.walk p = .error e) :
    dir.contains key d = if e.isMissing then .ok false else .error (failure key e) := by
  simp only [Directory.contains, hp, Disk.stat, hw]

theorem contains_longName {d : Disk} {e : DiskError}
    (h : d.strides .entry Disk.linkLimit [] (namesOf ["srv", "store", "new", longName]) =
      .error e) :
    sampleDirectory.contains ⟨["new", longName]⟩ d =
      if e.isMissing then .ok false else .error (failure ⟨["new", longName]⟩ e) :=
  contains_of_walk_error path_longName ((walk_longName d).trans h)

/-- A move fails because no call accepts the last name of the new key. Before, there is no value
under another key, and afterwards nothing can be said of it: its path goes on, to a name that is too
long. -/
theorem read_after_failed_move :
    let failed := sampleDirectory.answer (.move ⟨["s"]⟩ ⟨["new", "\x00"]⟩) ⟨1⟩ movableState
    failed.1.result = .error (.io ⟨["s"]⟩ DiskError.nulInName.toIo) ∧
      sampleDirectory.contains ⟨["new", longName]⟩ movableState.1 = .ok false ∧
      sampleDirectory.contains ⟨["new", longName]⟩ failed.2.1 =
        .error (.io ⟨["new", longName]⟩ DiskError.nameTooLong.toIo) :=
  ⟨by decide +kernel, contains_longName (e := .noEntry) (by decide +kernel),
    contains_longName (e := .nameTooLong) (by decide +kernel)⟩

end Directory

end BlobStore
