import BlobStore.Proofs.Disk.Sound
import BlobStore.Proofs.Disk.Walk

/-!
# Disks of one shape

Two disks have the same shape if the same directories, links and files stand on them, whatever the
files hold. Writing to a file keeps the shape of a disk, and all walks depend on nothing else.

## Main definitions

* `DiskEntry.outline`: an entry without what a file holds
* `Disk.SameShape`: disks of one shape

## Main results

* `Disk.SameShape.strides`, `Disk.SameShape.locate`: walks on disks of one shape
* `Disk.SameShape.stat`, `Disk.SameShape.removeFile`: what can be found and removed
* `Disk.Sound.sameShape_mapFile`: writing to a file keeps the shape
-/

namespace BlobStore

/-- An entry without what a file holds, and without its instants. -/
def DiskEntry.outline : DiskEntry → DiskEntry
  | .file value => .file ⟨value.number, [], ⟨0⟩, ⟨0⟩⟩
  | .directory => .directory
  | .link target => .link target

namespace Disk

variable {d d' d'' : Disk} {p : DiskPath} {place here : Place} {goal : Goal} {n : Nat}

/-- Disks on which the same stands, whatever files hold. -/
structure SameShape (d d' : Disk) : Prop where
  current : d'.current = d.current
  outline : ∀ place, (d'.at? place).map DiskEntry.outline = (d.at? place).map DiskEntry.outline

namespace SameShape

theorem refl (d : Disk) : d.SameShape d := ⟨rfl, fun _ => rfl⟩

theorem symm (h : d.SameShape d') : d'.SameShape d :=
  ⟨h.current.symm, fun place => (h.outline place).symm⟩

theorem trans (h : d.SameShape d') (h' : d'.SameShape d'') : d.SameShape d'' :=
  ⟨h'.current.trans h.current, fun place => (h'.outline place).trans (h.outline place)⟩

/-- At every place the same stands, or files of one number. -/
theorem cases (h : d.SameShape d') (place : Place) :
    (d'.at? place = d.at? place ∧ ∀ file, d.at? place ≠ some (.file file)) ∨
      ∃ file file', d.at? place = some (.file file) ∧ d'.at? place = some (.file file') ∧
        file'.number = file.number := by
  have he := h.outline place
  rcases hat : d.at? place with _ | ⟨_ | file | target⟩ <;>
    rcases hat' : d'.at? place with _ | ⟨_ | file' | target'⟩ <;>
      simp_all [DiskEntry.outline]

theorem isSome_eq (h : d.SameShape d') (place : Place) :
    (d'.at? place).isSome = (d.at? place).isSome := by
  rw [← Option.isSome_map, h.outline place, Option.isSome_map]

theorem file (h : d.SameShape d') {file : DiskFile} (hat : d.at? place = some (.file file)) :
    ∃ file', d'.at? place = some (.file file') ∧ file'.number = file.number := by
  rcases h.cases place with ⟨-, hno⟩ | ⟨other, file', hat', he, hnumber⟩
  · exact absurd hat (hno file)
  · rw [hat] at hat'
    cases hat'
    exact ⟨file', he, hnumber⟩

/-! ## Walks -/

theorem start (h : d.SameShape d') (p : DiskPath) : d'.start p = d.start p := by
  rw [Disk.start, Disk.start, h.current]

theorem turn (h : d.SameShape d') (n : Nat) (here : Place) (piece : FileName) :
    d'.turn n here piece = d.turn n here piece := by
  unfold Disk.turn
  rcases h.cases (here ++ [piece]) with ⟨hsame, -⟩ | ⟨file, file', hat, hat', -⟩
  · rw [hsame]
  · rw [hat, hat']

theorem strides (h : d.SameShape d') (goal : Goal) (n : Nat) (here : Place)
    (pieces : List FileName) : d'.strides goal n here pieces = d.strides goal n here pieces := by
  induction n, here, pieces using walk_induction d with
  | nil n here => rw [strides_nil, strides_nil]
  | cons n here piece rest ih =>
    rw [strides_cons, strides_cons, h.turn]
    cases ht : d.turn n here piece with
    | onward m there detour => exact ih m there detour ht
    | file _ | absent _ | refused _ => rfl

theorem walk (h : d.SameShape d') (p : DiskPath) : d'.walk p = d.walk p := by
  unfold Disk.walk Disk.reach
  cases refuse p with
  | some e => rfl
  | none => simp only [h.start, h.strides]

theorem locate (h : d.SameShape d') (p : DiskPath) : d'.locate p = d.locate p := by
  have happroach : d'.approach p = d.approach p := by
    unfold Disk.approach
    cases refuse p with
    | some e => rfl
    | none => simp only [h.start, h.strides]
  unfold Disk.locate
  rw [happroach]

/-! ## What is found -/

/-- A path finds something on both disks or on neither. -/
theorem stat (h : d.SameShape d') (p : DiskPath) : (d'.stat p).toBool = (d.stat p).toBool := by
  unfold Disk.stat
  rw [h.walk]
  cases d.walk p with
  | error e => rfl
  | ok place =>
    have hsome := h.isSome_eq place
    dsimp only
    cases hat : d.at? place <;> cases hat' : d'.at? place <;> simp_all [Except.toBool]

/-- What a path names can be removed from both disks or from neither. -/
theorem removeFile (h : d.SameShape d') (p : DiskPath) :
    (d'.removeFile p).toBool = (d.removeFile p).toBool := by
  unfold Disk.removeFile
  rw [h.locate]
  rcases d.locate p with e | ⟨here, _ | name⟩
  · rfl
  · rfl
  · dsimp only
    rcases h.cases (here ++ [name]) with ⟨hsame, -⟩ | ⟨file, file', hat, hat', -⟩
    · rw [hsame]
      rcases d.at? (here ++ [name]) with _ | ⟨_ | _ | _⟩
      · rfl
      · rfl
      all_goals
        dsimp only
        split <;> rfl
    · rw [hat, hat']
      dsimp only
      split <;> rfl

end SameShape

/-! ## Writing -/

/-- Writing to a file keeps the shape of a disk. -/
theorem Sound.sameShape_mapFile (h : d.Sound) (number : Nat) (f : Bytes → Bytes) (now : Time) :
    d.SameShape (d.mapFile number f now) := by
  unfold Disk.mapFile
  cases hf : d.find? number with
  | none => exact .refl d
  | some found =>
    obtain ⟨place, file⟩ := found
    obtain ⟨hplace, hat, -⟩ := h.at?_of_find? hf
    refine ⟨rfl, fun other => ?_⟩
    rw [at?_put hplace]
    split
    · rename_i he
      subst he
      rw [hat]
      rfl
    · rfl

end Disk

end BlobStore
