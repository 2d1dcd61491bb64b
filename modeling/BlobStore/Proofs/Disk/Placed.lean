import BlobStore.Proofs.Disk.Way

/-!
# Changes where paths lead

What is removed or renamed on any disk is what stands at the places of what the paths name.

## Main definitions

* `Disk.renamed`: a disk with what stood at a place moved to another

## Main results

* `Disk.place_of_removeFile`, `Disk.place_of_renameFile`, `Disk.place_of_removeDirectory`: what is
  removed and renamed
-/

namespace BlobStore

namespace Disk

variable {d e : Disk} {p q : DiskPath} {here place : Place} {name : FileName}

/-! ## Removals -/

theorem place_of_removeFile (h : d.removeFile p = .ok e) :
    ∃ place, d.place? p = some place ∧ d.at? place ≠ some .directory ∧ e = d.erase place := by
  unfold removeFile at h
  split at h
  · cases h
  · cases h
  · rename_i here name hl
    split at h
    · cases h
    · cases h
    · rename_i hdir
      split at h
      · cases h
      · exact ⟨here ++ [name], place?_of_locate hl, by simp_all, (Except.ok.inj h).symm⟩

/-- A directory that is removed is empty. -/
theorem place_of_removeDirectory (h : d.removeDirectory p = .ok e) :
    ∃ place, d.place? p = some place ∧ d.at? place = some .directory ∧ (d.below place).isEmpty ∧
      e = d.erase place := by
  unfold removeDirectory at h
  split at h
  · cases h
  · cases h
  · rename_i here name hl
    simp only at h
    split at h
    · cases h
    · rename_i hat
      split at h
      · rename_i hempty
        exact ⟨here ++ [name], place?_of_locate hl, hat, hempty, (Except.ok.inj h).symm⟩
      · cases h
    · cases h

/-- An empty directory is removed, if its name is not too long. -/
theorem removeDirectory_of_place? (h : d.place? p = some place)
    (hshort : ∀ piece ∈ p.passes, isTooLong piece = false) (hat : d.at? place = some .directory)
    (hempty : (d.below place).isEmpty) : d.removeDirectory p = .ok (d.erase place) := by
  obtain ⟨front, name, here, hfinds, rfl⟩ := finds_of_place? h
  have hname : isTooLong name = false := hshort name (by simp [hfinds.passes])
  unfold removeDirectory locate
  rw [hfinds.approach]
  simp [hname, hat, hempty]

/-! ## Renames -/

/-- The disk with what stands at `origin` moved to `target`, in place of what stands there. -/
def renamed (d : Disk) (origin target : Place) : Disk :=
  match d.at? origin with
  | some entry => if origin = target then d else (d.erase origin).put target entry
  | none => d

@[simp] theorem current_renamed (d : Disk) (origin target : Place) :
    (d.renamed origin target).current = d.current := by
  unfold renamed
  split
  · split <;> rfl
  · rfl

theorem at?_renamed_of_ne {origin target other : Place} (hfree : d.at? target ≠ some .directory)
    (ho : other ≠ origin) (ht : other ≠ target) :
    (d.renamed origin target).at? other = d.at? other := by
  unfold renamed
  split
  · split
    · rfl
    · have hne : target ≠ [] := by
        rintro rfl
        exact hfree rfl
      rw [at?_put hne, if_neg ht.symm, at?_erase_of_ne ho.symm]
  · rfl

/-- A file or link is renamed, and not in place of a directory. -/
theorem place_of_renameFile {source target : DiskPath} (h : d.renameFile source target = .ok e) :
    ∃ origin place, d.place? source = some origin ∧ d.place? target = some place ∧
      (d.at? origin).isSome ∧ d.at? origin ≠ some .directory ∧ d.at? place ≠ some .directory ∧
      e = d.renamed origin place := by
  unfold renameFile at h
  split at h
  · cases h
  · cases h
  · cases h
  · cases h
  · rename_i here name there other hsource htarget
    refine ⟨here ++ [name], there ++ [other], by rw [place?, hsource], by rw [place?, htarget], ?_⟩
    simp only at h
    split at h
    · cases h
    · cases h
    · rename_i entry hentry hat
      split_ifs at h with hlong hclosed hbelow hsame
      · cases h
        refine ⟨by rw [hat]; rfl, by simp_all, by simp_all, ?_⟩
        rw [renamed, hat]
        exact (if_pos hsame).symm
      · split at h
        · cases h
        · rename_i hdir
          cases h
          refine ⟨by rw [hat]; rfl, by simp_all, hdir, ?_⟩
          rw [renamed, hat]
          exact (if_neg hsame).symm

end Disk

end BlobStore
