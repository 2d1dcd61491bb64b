import BlobStore.Proofs.Database.Opening
import BlobStore.Proofs.Handles.Run

/-!
# Several handles on one database

Handles on the file of a database have nothing of their own. One that is opened reads the file, and
so finds what was written to it through the others, or it takes part in a connection that is shared.

## Main definitions

* `World.databaseOpener`: handles on a database
* `World.FirstOpening`: a database in a file that is opened for the first time
* `DatabaseFile.Shared`: the handles of one program beside the single handle of another

## Main results

* `World.FirstOpening.keeps`: what the first handle finds
* `World.FirstOpening.answers`: whole runs are answered alike
-/

namespace BlobStore

namespace World

variable {path : String} {name : DatabaseName} {f : DatabaseFile} {w w' : World} {now : Time}
  {n : Nat} {r : Request}

/-! ## Handles -/

/-- A handle on the database that a path names. -/
def databaseOpener (path : String) : Opener := fun now w => w.openDatabase path now

/-- The database in a file that is open. -/
def stored (w : World) (f : DatabaseFile) : Database := (filePart f.number).get w

theorem stored_of_files {database : Database} (h : w'.files = w.files.put f.number database) :
    w'.stored f = database := by
  show (w'.files.get? f.number).getD Database.empty = database
  rw [h, OrderedMap.get?_put, if_pos rfl]
  rfl

theorem databaseOpener_eq {home : DatabaseHome} (h : w.findDatabase path now = (.ok home, w')) :
    databaseOpener path now w =
      (.ok (databaseStorage path w'.fresh home), { w' with fresh := w'.fresh + 1 }) := by
  unfold databaseOpener openDatabase
  rw [h]
  rfl

theorem result_databaseStorage :
    ((databaseStorage path n (.file f)).answer r now w).1 =
      (f.answer path r now (w.disk, w.stored f)).1 := rfl

theorem disk_databaseStorage :
    ((databaseStorage path n (.file f)).answer r now w).2.disk =
      (f.answer path r now (w.disk, w.stored f)).2.1 := rfl

theorem stored_databaseStorage :
    ((databaseStorage path n (.file f)).answer r now w).2.stored f =
      (f.answer path r now (w.disk, w.stored f)).2.2 := stored_of_files (w := w) rfl

/-- Locks are kept beside the database. -/
theorem act_databaseStorage (action : LockAction) :
    (databaseStorage path n (.file f)).locking.act w action =
      (tablePart n).set (LockTable.locking.act ((tablePart n).get w) action)
        ((diskPart.both (filePart f.number)).set (w.disk, w.stored f) w) :=
  act_locked_within _ _ _ _ _

theorem shared_databaseStorage :
    ((databaseStorage path n (.file f)).answer r now w).2.shared = w.shared := rfl

/-! ## Openings -/

/-- The name of a shared connection depends on where the path leads, and on nothing else. -/
theorem connectionName?_congr
    (h : DatabaseFile.resolve w'.disk name.path = DatabaseFile.resolve w.disk name.path) :
    w'.connectionName? name = w.connectionName? name := by
  unfold connectionName?
  rw [h]

/-- Nothing but a file is open under the shared name of its connection. -/
def Connected (name : DatabaseName) (f : DatabaseFile) (w : World) : Prop :=
  ∀ text home, w.connectionName? name = some text → w.shared.get? text = some home → home = .file f

/-- A database in a file is loaded, unless its connection is shared and open. -/
theorem findDatabase_eq (hnul : (Utf8.encode path).idxOf? 0 = none)
    (hname : DatabaseName.ofText path = .ok name) (hfile : name.inMemory = false) :
    w.findDatabase path now =
      w.findShared (w.connectionName? name) fun w => w.loadDatabase name now := by
  have hkept : name.keptName? = none := by
    unfold DatabaseName.keptName?
    simp [hfile]
  unfold findDatabase
  rw [hnul, hname]
  simp only [hkept]
  rfl

theorem loadDatabase_eq {found : Database} (hfile : name.inMemory = false)
    (h : DatabaseFile.ofName name now (fun n => (filePart n).get w) w.disk =
      (.ok (f, found), w.disk)) :
    w.loadDatabase name now = (.ok (.file f), { w with files := w.files.put f.number found }) := by
  unfold loadDatabase
  simp only [hfile, Bool.false_eq_true, if_false, h]

/-- A database that a file keeps is loaded as it is kept. -/
theorem loadDatabase_keeps (hfile : name.inMemory = false)
    (h : f.Keeps name w.disk (w.stored f)) (now : Time) :
    ∃ w', w.loadDatabase name now = (.ok (.file f), w') ∧ w'.disk = w.disk ∧
      w'.shared = w.shared ∧ w'.stored f = w.stored f := by
  have hload : DatabaseFile.ofName name now (fun n => (filePart n).get w) w.disk =
      (.ok (f, w.stored f), w.disk) := h.ofName rfl now
  exact ⟨_, loadDatabase_eq hfile hload, rfl, rfl, stored_of_files (w := w) rfl⟩

/-- **Openings.** Opened again, a database is found in the same file, as it is stored there. -/
theorem findDatabase_keeps (hnul : (Utf8.encode path).idxOf? 0 = none)
    (hname : DatabaseName.ofText path = .ok name) (hfile : name.inMemory = false)
    (h : f.Keeps name w.disk (w.stored f)) (hc : Connected name f w) (now : Time) :
    ∃ w', w.findDatabase path now = (.ok (.file f), w') ∧ w'.disk = w.disk ∧
      w'.stored f = w.stored f ∧ Connected name f w' := by
  rw [findDatabase_eq hnul hname hfile]
  obtain ⟨w', hload, hdisk, hshared, hstored⟩ := loadDatabase_keeps hfile h now
  have hsame : w'.connectionName? name = w.connectionName? name :=
    connectionName?_congr (by rw [hdisk])
  unfold findShared
  cases hconnection : w.connectionName? name with
  | none =>
    refine ⟨w', hload, hdisk, hstored, ?_⟩
    intro text home ht
    rw [hsame, hconnection] at ht
    cases ht
  | some text =>
    simp only [Option.bind_some]
    cases hopen : w.shared.get? text with
    | some home =>
      obtain rfl := hc text home hconnection hopen
      exact ⟨w, rfl, rfl, rfl, hc⟩
    | none =>
      simp only [hload]
      refine ⟨{ w' with shared := w'.shared.put text (.file f) }, rfl, hdisk, hstored, ?_⟩
      intro other home ht hget
      have hother : w'.connectionName? name = some other := ht
      rw [hsame, hconnection] at hother
      cases hother
      have hput : (w'.shared.put text (.file f)).get? text = some home := hget
      rw [OrderedMap.get?_put, if_pos rfl] at hput
      exact (Option.some.inj hput).symm

/-- A database in a file is opened by a path, for the first time if its connection is shared. The
files of the disk can be told apart, and once the file is there it is at rest. -/
structure FirstOpening (path : String) (name : DatabaseName) (f : DatabaseFile) (now : Time)
    (before w : World) : Prop where
  named : DatabaseName.ofText path = .ok name
  inFile : name.inMemory = false
  sound : before.disk.Sound
  distinct : before.disk.Distinct
  unshared : ∀ text, before.connectionName? name = some text → before.shared.get? text = none
  found : before.findDatabase path now = (.ok (.file f), w)
  atRest : f.AtRest name w.disk

namespace FirstOpening

variable {before : World}

theorem nul (h : FirstOpening path name f now before w) : (Utf8.encode path).idxOf? 0 = none := by
  have hfound := h.found
  unfold findDatabase at hfound
  cases hn : (Utf8.encode path).idxOf? 0 with
  | none => rfl
  | some position => simp [hn] at hfound

/-- The database is loaded from its file. -/
theorem loaded (h : FirstOpening path name f now before w) :
    ∃ database, DatabaseFile.ofName name now (fun n => (filePart n).get before) before.disk =
        (.ok (f, database), w.disk) ∧
      w.stored f = database ∧
      ∀ text home, before.connectionName? name = some text → w.shared.get? text = some home →
        home = .file f := by
  have hfound := h.found
  rw [findDatabase_eq h.nul h.named h.inFile] at hfound
  have hload : ∀ v, before.loadDatabase name now = (.ok (.file f), v) → ∃ database,
      DatabaseFile.ofName name now (fun n => (filePart n).get before) before.disk =
          (.ok (f, database), v.disk) ∧ v.stored f = database := by
    intro v hv
    unfold loadDatabase at hv
    rw [if_neg (by simp [h.inFile])] at hv
    rcases hname : DatabaseFile.ofName name now (fun n => (filePart n).get before) before.disk with
      ⟨e | ⟨g, database⟩, d⟩
    · simp [hname] at hv
    · simp only [hname] at hv
      cases hv
      exact ⟨database, rfl, stored_of_files (w := before) rfl⟩
  unfold findShared at hfound
  cases hconnection : before.connectionName? name with
  | none =>
    rw [hconnection] at hfound
    obtain ⟨database, hname, hstored⟩ := hload w hfound
    exact ⟨database, hname, hstored, fun text home ht => by cases ht⟩
  | some text =>
    simp only [hconnection, Option.bind_some, h.unshared text hconnection] at hfound
    split at hfound
    · cases hfound
    · rename_i home v hv
      cases hfound
      obtain ⟨database, hname, hstored⟩ := hload v hv
      refine ⟨database, hname, hstored, ?_⟩
      intro other home ht hget
      cases ht
      have hput : (v.shared.put text (.file f)).get? text = some home := hget
      rw [OrderedMap.get?_put, if_pos rfl] at hput
      exact (Option.some.inj hput).symm

/-- The file holds what the first handle finds. A database that was there is found as it stands, and
stays there. -/
theorem keeps (h : FirstOpening path name f now before w) :
    f.Keeps name w.disk (w.stored f) ∧ Connected name f w ∧
      ∀ file, before.disk.at? f.place = some (.file file) → 1 < file.bytes.length →
        w.disk.at? f.place = some (.file file) ∧
          DatabaseFile.decode (before.stored f) file.bytes = .ok (w.stored f) := by
  obtain ⟨database, hload, rfl, hshared⟩ := h.loaded
  obtain ⟨hleads, hkeeps, hkept⟩ :=
    DatabaseFile.keeps_of_ofName h.sound h.distinct hload h.atRest
  refine ⟨hkeeps, fun text home ht => hshared text home ?_, hkept⟩
  rw [← ht]
  exact connectionName?_congr (hleads.trans h.atRest.leads.symm)

end FirstOpening

end World

/-! ## Runs -/

namespace DatabaseFile

open World

/-- The handles of one program on a file that keeps a database, and the single handle of another on
a file that stores the same. -/
structure Shared (path : String) (name : DatabaseName) (f : DatabaseFile) (s : Handles)
    (w : World) : Prop where
  keeps : f.Keeps name s.world.disk (s.world.stored f)
  connected : Connected name f s.world
  handles : ∀ storage ∈ s.all, ∃ n, storage = databaseStorage path n (.file f)
  shape : s.world.disk.SameShape w.disk
  sound : w.disk.Sound
  values : (s.world.stored f).values = (w.stored f).values

namespace Shared

variable {path : String} {name : DatabaseName} {f : DatabaseFile} {s : Handles} {w : World}

/-- A handle that is opened finds what the others store. -/
theorem found (h : Shared path name f s w) {w' : World} (hdisk : w'.disk = s.world.disk)
    (hstored : w'.stored f = s.world.stored f) (hc : Connected name f w') {s' : Handles}
    (hworld : s'.world = { w' with fresh := w'.fresh + 1 })
    (hall : ∀ storage ∈ s'.all, ∃ n, storage = databaseStorage path n (.file f)) :
    Shared path name f s' w where
  keeps := by
    rw [hworld]
    show f.Keeps name w'.disk (w'.stored f)
    rw [hdisk, hstored]
    exact h.keeps
  connected := by
    rw [hworld]
    exact hc
  handles := hall
  shape := by
    rw [hworld]
    show w'.disk.SameShape w.disk
    rw [hdisk]
    exact h.shape
  sound := h.sound
  values := by
    rw [hworld]
    show (w'.stored f).values = _
    rw [hstored]
    exact h.values

/-- One handle more, or one in place of all others. -/
theorem opened (h : Shared path name f s w) (hnul : (Utf8.encode path).idxOf? 0 = none)
    (hname : DatabaseName.ofText path = .ok name) (hfile : name.inMemory = false) (now : Time) :
    (∃ storage w', databaseOpener path now s.world = (.ok storage, w') ∧
        Shared path name f (s.opened storage w') w) ∧
      ∃ storage w', databaseOpener path now s.world.closed = (.ok storage, w') ∧
        Shared path name f { world := w', first := storage } w := by
  constructor
  · obtain ⟨w', hfound, hdisk, hstored, hconnected⟩ :=
      findDatabase_keeps hnul hname hfile h.keeps h.connected now
    refine ⟨_, _, databaseOpener_eq hfound, h.found hdisk hstored hconnected rfl ?_⟩
    intro storage hm
    rcases Handles.mem_all_opened.mp hm with hm | rfl
    · exact h.handles storage hm
    · exact ⟨_, rfl⟩
  · have hclosed : Connected name f s.world.closed := by
      intro text home _ hget
      cases hget
    obtain ⟨w', hfound, hdisk, hstored, hconnected⟩ :=
      findDatabase_keeps (w := s.world.closed) hnul hname hfile h.keeps hclosed now
    refine ⟨_, _, databaseOpener_eq hfound, h.found hdisk hstored hconnected rfl ?_⟩
    intro storage hm
    obtain rfl := List.mem_singleton.mp hm
    exact ⟨_, rfl⟩

/-- A request is answered by every handle as by the single one. -/
theorem asked (h : Shared path name f s w) {storage : Storage World} (hm : storage ∈ s.all)
    {now now' : Time}
    (ht : integerCode (Database.millis now) = integerCode (Database.millis now')) (r : Request)
    (n : Nat) :
    (storage.answer r now s.world).1.result.map r.shown =
        ((databaseStorage path n (.file f)).answer r now' w).1.result.map r.shown ∧
      Shared path name f { s with world := (storage.answer r now s.world).2 }
        ((databaseStorage path n (.file f)).answer r now' w).2 := by
  obtain ⟨k, rfl⟩ := h.handles storage hm
  obtain ⟨hresult, hshape, hsound, hvalues⟩ := answer_congr h.keeps.atRest h.keeps.sound h.sound
    h.shape h.values ht path r
  have hkeeps := Keeps.answer (s := (s.world.disk, s.world.stored f)) h.keeps path r now
  refine ⟨?result, ?keeps, ?connected, h.handles, ?shape, ?sound, ?values⟩
  case result =>
    rw [result_databaseStorage, result_databaseStorage]
    exact hresult
  case keeps =>
    rw [disk_databaseStorage, stored_databaseStorage]
    exact hkeeps
  case connected =>
    have hleads := hkeeps.atRest.leads.trans h.keeps.atRest.leads.symm
    rw [← disk_databaseStorage] at hleads
    intro text home ht hget
    rw [connectionName?_congr hleads] at ht
    rw [shared_databaseStorage] at hget
    exact h.connected text home ht hget
  case shape =>
    rw [disk_databaseStorage, disk_databaseStorage]
    exact hshape
  case sound =>
    rw [disk_databaseStorage]
    exact hsound
  case values =>
    rw [stored_databaseStorage, stored_databaseStorage]
    exact hvalues

/-- Locks are kept beside what the handles share. -/
theorem locked (h : Shared path name f s w) {storage : Storage World} (hm : storage ∈ s.all)
    (action : LockAction) :
    Shared path name f { s with world := storage.locking.act s.world action } w := by
  obtain ⟨k, rfl⟩ := h.handles storage hm
  have hsame : ∀ table, ((tablePart k).set table ((diskPart.both (filePart f.number)).set
      (s.world.disk, s.world.stored f) s.world)).stored f = s.world.stored f :=
    fun _ => stored_of_files (w := s.world) rfl
  rw [act_databaseStorage]
  refine ⟨?keeps, h.connected, h.handles, h.shape, h.sound, ?values⟩
  case keeps =>
    rw [hsame]
    exact h.keeps
  case values =>
    rw [hsame]
    exact h.values

end Shared

end DatabaseFile

namespace World

variable {path : String} {name : DatabaseName} {f : DatabaseFile} {now : Time} {before w : World}

/-- The first handle on a database. -/
def firstInDatabase (path : String) (f : DatabaseFile) (w : World) : Handles where
  world := { w with fresh := w.fresh + 1 }
  first := databaseStorage path w.fresh (.file f)

/-- **Databases.** Handles on one database answer every run as the first of them does alone. -/
theorem FirstOpening.answers (h : FirstOpening path name f now before w) {clock clock' : Nat → Time}
    (hclock : ∀ n, (clock n).Current) (hclock' : ∀ n, (clock' n).Current)
    (steps : List HandleStep) :
    Handles.AsOne (databaseOpener path) clock clock' steps (firstInDatabase path f w) := by
  obtain ⟨hkeeps, hconnected, -⟩ := h.keeps
  refine Handles.answers_eq (R := fun _ => DatabaseFile.Shared path name f)
    (fun n now s w h' => (h'.opened h.nul h.named h.inFile now).1)
    (fun n now s w h' => (h'.opened h.nul h.named h.inFile now).2)
    (fun n m s w _ h' storage hm r _ =>
      h'.asked hm (Database.integerCode_congr (hclock n) (hclock' m)) r _)
    (fun n s w h' storage hm action => h'.locked hm action)
    0 (Nat.le_refl _) (fun _ _ => trivial) ?_
  refine ⟨hkeeps, hconnected, ?_, .refl _, hkeeps.sound, rfl⟩
  intro storage hm
  obtain rfl := List.mem_singleton.mp hm
  exact ⟨_, rfl⟩

end World

end BlobStore
