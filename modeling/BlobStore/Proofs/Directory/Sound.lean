import BlobStore.Directory
import BlobStore.Proofs.Disk.Sound

/-!
# Requests leave disks sound

Whatever a storage in a directory is asked, it leaves a sound disk sound: wherever the root is, with
any keys, if the request succeeds and if it stops half way. So does every step of a save whose
content comes piece by piece.

## Main definitions

* `Backend.Keeps`: what holds of the state of a backend goes on to hold

## Main results

* `Directory.sound_answer`: every request leaves the disk sound
* `Directory.keeps_sound`: so does every step of a save
-/

namespace BlobStore

/-- What holds of a state of a backend holds after everything that the backend can be asked. -/
structure Backend.Keeps {σ : Type} (b : Backend σ) (holds : σ → Prop) : Prop where
  answer : ∀ r now s, holds s → holds (b.answer r now s).2
  start : ∀ key size now s, holds s → holds (b.intake.start key size now s).2
  append : ∀ draft piece now s, holds s → holds (b.intake.append draft piece now s).2
  finish : ∀ key size draft now s, holds s → holds (b.intake.finish key size draft now s).2
  fail : ∀ key size draft cause now s, holds s → holds (b.intake.fail key size draft cause now s).2
  abandon : ∀ draft s, holds s → holds (b.intake.abandon draft s).2

namespace Directory

variable {dir : Directory} {d : Disk} {s : Disk × Nat}

/-! ## Drafts -/

theorem sound_dropDraft (h : d.Sound) (serial : Nat) : (dir.dropDraft serial d).2.Sound := by
  unfold dropDraft
  simp only
  split
  · rename_i d' he
    exact h.removeFile he
  · exact h
  · exact h

theorem sound_discard (h : d.Sound) {α : Type} (e : StorageError) (serial : Nat) :
    (dir.discard e serial d : Reply α × Disk).2.Sound := sound_dropDraft h serial

theorem sound_openDraft (h : d.Sound) (serial : Nat) (now : Time) :
    (dir.openDraft serial now d).2.Sound := by
  have hmake := h.makeDirectories dir.draftsPath
  unfold openDraft
  cases hd : d.makeDirectories dir.draftsPath with
  | mk made d' =>
    rw [hd] at hmake
    cases made with
    | error e => exact hmake
    | ok =>
      cases hc : d'.createFile (dir.draftPath serial) now with
      | error e => simpa [hc] using hmake
      | ok created => simpa [hc] using hmake.createFile hc

theorem sound_install (h : d.Sound) (source target : DiskPath)
    (unmade unmoved : DiskError → StorageError) :
    (install source target unmade unmoved d).2.Sound := by
  have hmake := h.makeDirectories target.parent
  unfold install
  cases hd : d.makeDirectories target.parent with
  | mk made d' =>
    rw [hd] at hmake
    cases made with
    | error e => exact hmake
    | ok =>
      cases hr : d'.renameFile source target with
      | error e => simpa [hr] using hmake
      | ok d'' => simpa [hr] using hmake.renameFile hr

/-! ## Saves -/

theorem sound_startSave (h : s.1.Sound) (key : Key) (now : Time) :
    (dir.startSave key now s).2.1.Sound := by
  obtain ⟨d, serial⟩ := s
  unfold startSave
  cases dir.path key with
  | error e => exact h
  | ok p =>
    have hopen : (dir.openDraft serial now d).2.Sound := sound_openDraft h serial now
    cases hd : dir.openDraft serial now d with
    | mk opened d' =>
      rw [hd] at hopen
      cases opened with
      | error e => simpa [hd] using sound_discard hopen (failure key e) serial
      | ok number => simpa [hd] using hopen

theorem sound_appendDraft (h : d.Sound) (draft : Draft) (piece : Bytes) (now : Time) :
    (appendDraft draft piece now d).2.Sound := by
  unfold appendDraft
  cases draft.file with
  | none => exact h
  | some file => exact h.overwrite file.number draft.bytes.length piece now

theorem sound_finishSave (h : d.Sound) (key : Key) (draft : Draft) :
    (dir.finishSave key draft d).2.Sound := by
  unfold finishSave
  cases dir.path key with
  | error e => exact h
  | ok target =>
    cases draft.file with
    | none => exact h
    | some file =>
      let blame := fun (e : DiskError) => StorageError.io key e.toIo
      have hinstall := sound_install h (dir.draftPath file.serial) target blame blame
      cases hd : install (dir.draftPath file.serial) target blame blame d with
      | mk done d' =>
        rw [hd] at hinstall
        cases done with
        | error e => simpa [blame, hd] using sound_discard hinstall e file.serial
        | ok => simpa [blame, hd] using hinstall

theorem sound_abandonSave (h : d.Sound) (draft : Draft) : (dir.abandonSave draft d).2.Sound := by
  unfold abandonSave
  cases draft.file with
  | none => exact h
  | some file => exact sound_dropDraft h file.serial

theorem sound_failSave (h : d.Sound) (draft : Draft) (cause : IoError) :
    (dir.failSave draft cause d).2.Sound := sound_abandonSave h draft

theorem sound_save (h : s.1.Sound) (key : Key) (content : Content) (now : Time) :
    (dir.save key content now s).2.1.Sound := by
  have hstart : (dir.startSave key now s).2.1.Sound := sound_startSave h key now
  unfold save
  rcases hs : dir.startSave key now s with ⟨⟨e | draft, events⟩, d, count⟩
  · rw [hs] at hstart
    exact hstart
  · rw [hs] at hstart
    have hpieces := sound_appendDraft hstart draft (chunksOf content.producer.items).1.flatten now
    simp only
    cases (chunksOf content.producer.items).2.1 with
    | none => exact sound_finishSave hpieces key _
    | some cause => exact sound_failSave hpieces _ cause

/-! ## Moves and removals -/

theorem sound_move (h : d.Sound) (source destination : Key) :
    (dir.move source destination d).2.Sound := by
  unfold move
  cases dir.path destination with
  | error e => exact h
  | ok target =>
    cases dir.file source d with
    | error e => exact h
    | ok file =>
      cases dir.path source with
      | error e => exact h
      | ok origin =>
        simp only
        split
        · exact h
        · have hinstall := sound_install h origin target
            (fun e => StorageError.io destination e.toIo) (failure source)
          split
          · rename_i d' hd
            rw [hd] at hinstall
            exact hinstall
          · rename_i d' hd
            rw [hd] at hinstall
            exact hinstall.removeDirectories (dir.parents origin)

theorem sound_remove (h : d.Sound) (key : Key) : (dir.remove key d).2.Sound := by
  unfold remove
  cases dir.file key d with
  | error e => exact h
  | ok file =>
    cases dir.path key with
    | error e => exact h
    | ok p =>
      simp only
      split
      · exact h
      · rename_i d' he
        exact (h.removeFile he).removeDirectories (dir.parents p)

/-! ## Requests -/

/-- Every request leaves a sound disk sound. -/
theorem sound_answer (h : s.1.Sound) (r : Request) (now : Time) :
    (dir.answer r now s).2.1.Sound := by
  cases r with
  | contains key | list key | value key | metadata key => exact h
  | save key content => exact sound_save h key content now
  | move source destination => exact sound_move h source destination
  | delete key => exact sound_remove h key

/-- A storage in a directory keeps the disk sound, whatever is asked of it and in whatever order,
the steps of its unfinished saves included. -/
theorem keeps_sound (dir : Directory) : dir.backend.Keeps fun s => s.1.Sound where
  answer r now _ h := sound_answer h r now
  start key _ now _ h := sound_startSave h key now
  append draft piece now _ h := sound_appendDraft h draft piece now
  finish key _ draft _ _ h := sound_finishSave h key draft
  fail _ _ draft cause _ _ h := sound_failSave h draft cause
  abandon draft _ h := sound_abandonSave h draft

end Directory

end BlobStore
