import BlobStore.Proofs.Directory.SameValues
import BlobStore.Proofs.Handles.Run

/-!
# Several handles on one directory

A handle on a directory has nothing of its own but the number of the drafts that it has opened. So
two programs, one with several handles and one with a single handle, may have files with different
drafts behind them, but the same values under the keys that do not lead to the drafts.

## Main definitions

* `Directory.Ready`: a root on which handles can be opened
* `Directory.Paired`: the disks of both programs
* `World.directoryStorage`, `World.directoryOpener`: handles on a directory
* `Directory.Shared`: the handles of one program beside the single handle of the other

## Main results

* `Directory.Paired.answer`: both disks answer alike and stay a pair
* `Directory.Shared.answers`: whole runs are answered alike
* `Directory.Holds.run_out`: a handle that cannot save, where another can
-/

namespace BlobStore

namespace Directory

variable {dir : Directory} {d d' : Disk} {s s' : Disk × Nat} {fills : Prop}

/-! ## Pairs of disks -/

/-- A root that is not made yet, or that holds no drafts. If values may be put under the root
itself, its path ends in no link, which the file of such a value would take the place of. -/
def Ready (dir : Directory) (fills : Prop) (d : Disk) : Prop :=
  dir.Unmade d ∨ ∃ base root, (fills → dir.Settled base) ∧ dir.Rests base root d

/-- One disk on which the root is not made yet, or two on which it looks alike. -/
def Paired (dir : Directory) (fills : Prop) (d d' : Disk) : Prop :=
  (d = d' ∧ dir.Unmade d) ∨
    ∃ base root, (fills → dir.Settled base) ∧ dir.Twins base root d d'

theorem Ready.paired (h : dir.Ready fills d) : dir.Paired fills d d := by
  rcases h with hunmade | ⟨base, root, hb, hrests⟩
  · exact Or.inl ⟨rfl, hunmade⟩
  · exact Or.inr ⟨base, root, hb, hrests, hrests, .refl d root _⟩

/-- At most one draft is opened for a request. -/
theorem count_answer_le (dir : Directory) (r : Request) (now : Time) (s : Disk × Nat) :
    (dir.answer r now s).2.2 ≤ s.2 + 1 := by
  cases r with
  | contains _ | list _ | value _ | metadata _ | move _ _ | delete _ => exact Nat.le_succ _
  | save key content =>
    have hstart : (dir.startSave key now s).2.2 ≤ s.2 + 1 := by
      unfold startSave
      cases dir.path key with
      | error e => exact Nat.le_succ _
      | ok p =>
        dsimp only
        split <;> exact Nat.le_refl _
    show (dir.save key content now s).2.2 ≤ s.2 + 1
    unfold save
    generalize dir.startSave key now s = started at hstart ⊢
    obtain ⟨⟨e | draft, events⟩, d, count⟩ := started <;> exact hstart

/-- Neither the instant nor the number of drafts counts for what does not save. -/
theorem result_of_not_save {r : Request} (hsave : ∀ key content, r ≠ .save key content)
    (d : Disk) (n m : Nat) (now now' : Time) :
    (dir.answer r now (d, n)).1 = (dir.answer r now' (d, m)).1 := by
  cases r with
  | save key content => exact absurd rfl (hsave key content)
  | contains _ | list _ | value _ | metadata _ | move _ _ | delete _ => rfl

/-- Before the root is made, both programs have one disk. A save makes the root for both. -/
theorem Unmade.answer_paired (h : dir.Unmade d) {n m : Nat}
    (hroom : dir.HasRoom n ↔ dir.HasRoom m) {r : Request} (hr : ∀ key ∈ r.named, IsShown key)
    (now now' : Time) :
    (dir.answer r now (d, n)).1.result.map r.shown =
        (dir.answer r now' (d, m)).1.result.map r.shown ∧
      dir.Paired fills (dir.answer r now (d, n)).2.1 (dir.answer r now' (d, m)).2.1 := by
  by_cases hsave : ∃ key content, r = .save key content
  case neg =>
    have hnot := fun key content he => hsave ⟨key, content, he⟩
    rw [result_of_not_save hnot d n m now now', answer_of_file_error hnot h.file_error,
      answer_of_file_error hnot h.file_error]
    exact ⟨rfl, Or.inl ⟨rfl, h⟩⟩
  obtain ⟨key, content, rfl⟩ := hsave
  simp only [Directory.answer]
  rcases h.save_cases key content with ⟨e, hfailed⟩ | ⟨made, -, hvacant, hsame⟩
  · obtain ⟨events, k, he⟩ := hfailed now n
    obtain ⟨events', k', he'⟩ := hfailed now' m
    rw [he, he']
    exact ⟨rfl, Or.inl ⟨rfl, h⟩⟩
  · obtain ⟨root, hrests⟩ := hvacant.rests
    have htwins : dir.Twins made root (made, n).1 (made, m).1 :=
      ⟨hrests, hrests, .refl made root _⟩
    obtain ⟨hresult, hafter⟩ := htwins.answer (r := .save key content) (fun _ => hvacant.settled)
      hroom hr now now'
    rw [hsame now n, hsame now' m]
    exact ⟨hresult, Or.inr ⟨made, root, fun _ => hvacant.settled, hafter⟩⟩

/-- **Pairs.** Both disks answer a request alike and stay a pair, if there is room for the drafts of
both programs or for neither. -/
theorem Paired.answer (h : dir.Paired fills s.1 s'.1)
    (hroom : dir.HasRoom s.2 ↔ dir.HasRoom s'.2) {r : Request}
    (hr : ∀ key ∈ r.named, IsShown key) (hf : r.destination? = some .root → fills)
    (now now' : Time) :
    (dir.answer r now s).1.result.map r.shown = (dir.answer r now' s').1.result.map r.shown ∧
      dir.Paired fills (dir.answer r now s).2.1 (dir.answer r now' s').2.1 := by
  rcases h with ⟨hsame, hunmade⟩ | ⟨base, root, hb, htwins⟩
  · obtain ⟨d, n⟩ := s
    obtain ⟨d', m⟩ := s'
    obtain rfl : d = d' := hsame
    exact hunmade.answer_paired hroom hr now now'
  · obtain ⟨hresult, hafter⟩ := htwins.answer (hb ∘ hf) hroom hr now now'
    exact ⟨hresult, Or.inr ⟨base, root, hb, hafter⟩⟩

end Directory

/-! ## Handles -/

namespace World

/-- The storages below the directory that a text names have this directory. -/
def directoryAt (root : String) : Directory := { root, process }

/-- The handle with the number `n` on a directory. -/
def directoryStorage (root : String) (n : Nat) : Storage World :=
  (directoryAt root).backend.locked.within ((diskPart.both (draftsPart n)).both (tablePart n))

/-- A handle on a directory can always be opened. -/
def directoryOpener (root : String) : Opener := fun _ w =>
  let (storage, w) := w.openDirectory root
  (.ok storage, w)

theorem directoryOpener_eq (root : String) (now : Time) (w : World) :
    directoryOpener root now w =
      (.ok (directoryStorage root w.fresh), { w with fresh := w.fresh + 1 }) := rfl

/-- The number of the drafts that a handle has opened. -/
def draftCount (w : World) (n : Nat) : Nat := (draftsPart n).get w

section

variable {root : String} {n : Nat} {r : Request} {now : Time} {w : World}

theorem answer_directoryStorage :
    (directoryStorage root n).answer r now w =
      (((directoryAt root).answer r now (w.disk, w.draftCount n)).1,
        (tablePart n).set ((tablePart n).get w) ((diskPart.both (draftsPart n)).set
          ((directoryAt root).answer r now (w.disk, w.draftCount n)).2 w)) :=
  answer_locked_within _ _ _ _ _ _

theorem act_directoryStorage (action : LockAction) :
    (directoryStorage root n).locking.act w action =
      (tablePart n).set (LockTable.locking.act ((tablePart n).get w) action)
        ((diskPart.both (draftsPart n)).set (w.disk, w.draftCount n) w) :=
  act_locked_within _ _ _ _ _

theorem result_directoryStorage :
    ((directoryStorage root n).answer r now w).1 =
      ((directoryAt root).answer r now (w.disk, w.draftCount n)).1 := by
  rw [answer_directoryStorage]

theorem disk_directoryStorage :
    ((directoryStorage root n).answer r now w).2.disk =
      ((directoryAt root).answer r now (w.disk, w.draftCount n)).2.1 := by
  rw [answer_directoryStorage]
  rfl

theorem fresh_directoryStorage :
    ((directoryStorage root n).answer r now w).2.fresh = w.fresh := by
  rw [answer_directoryStorage]
  rfl

theorem drafts_directoryStorage :
    ((directoryStorage root n).answer r now w).2.drafts =
      w.drafts.put n ((directoryAt root).answer r now (w.disk, w.draftCount n)).2.2 := by
  rw [answer_directoryStorage]
  rfl

theorem draftCount_directoryStorage (k : Nat) :
    ((directoryStorage root n).answer r now w).2.draftCount k =
      if n = k then ((directoryAt root).answer r now (w.disk, w.draftCount n)).2.2
      else w.draftCount k := by
  show (OrderedMap.get? _ k).getD 0 = _
  rw [drafts_directoryStorage, OrderedMap.get?_put]
  split <;> rfl

end

end World

namespace Directory

open World

/-- After `n` steps: the handles of one program have opened at most `n` drafts each, and so has the
single handle of the other. -/
structure Shared (root : String) (fills : Prop) (single n : Nat) (s : Handles) (w : World) :
    Prop where
  paired : (directoryAt root).Paired fills s.world.disk w.disk
  unused : ∀ k, s.world.fresh ≤ k → s.world.drafts.get? k = none
  handles : ∀ storage ∈ s.all, ∃ k < s.world.fresh,
    storage = directoryStorage root k ∧ s.world.draftCount k ≤ n
  count : w.draftCount single ≤ n

namespace Shared

variable {root : String} {fills : Prop} {single n : Nat} {s : Handles} {w : World}

/-- A new handle has opened no draft. -/
theorem fresh (h : Shared root fills single n s w) :
    ({ s.world with fresh := s.world.fresh + 1 } : World).draftCount s.world.fresh = 0 := by
  show (s.world.drafts.get? s.world.fresh).getD 0 = 0
  rw [h.unused _ (Nat.le_refl _)]
  rfl

theorem opened (h : Shared root fills single n s w) :
    Shared root fills single (n + 1) (s.opened (directoryStorage root s.world.fresh)
      { s.world with fresh := s.world.fresh + 1 }) w where
  paired := h.paired
  unused k hk := h.unused k (Nat.le_of_succ_le hk)
  handles storage hm := by
    rcases Handles.mem_all_opened.mp hm with hm | rfl
    · obtain ⟨k, hk, he, hcount⟩ := h.handles storage hm
      exact ⟨k, Nat.lt_succ_of_lt hk, he, Nat.le_succ_of_le hcount⟩
    · exact ⟨s.world.fresh, Nat.lt_succ_self _, rfl, h.fresh.trans_le (Nat.zero_le _)⟩
  count := Nat.le_succ_of_le h.count

theorem reopened (h : Shared root fills single n s w) :
    Shared root fills single (n + 1)
      { world := { s.world.closed with fresh := s.world.fresh + 1 }
        first := directoryStorage root s.world.fresh } w where
  paired := h.paired
  unused k hk := h.unused k (Nat.le_of_succ_le hk)
  handles storage hm := by
    obtain rfl := List.mem_singleton.mp hm
    exact ⟨s.world.fresh, Nat.lt_succ_self _, rfl, h.fresh.trans_le (Nat.zero_le _)⟩
  count := Nat.le_succ_of_le h.count

/-- A request is answered by every handle as by the single one. -/
theorem asked (h : Shared root fills single n s w) {storage : Storage World} (hm : storage ∈ s.all)
    (hroom : ∀ serial ≤ n, (directoryAt root).HasRoom serial ↔ (directoryAt root).HasRoom 0)
    {r : Request} (hr : ∀ key ∈ r.named, IsShown key) (hf : r.destination? = some .root → fills)
    (now now' : Time) :
    (storage.answer r now s.world).1.result.map r.shown =
        ((directoryStorage root single).answer r now' w).1.result.map r.shown ∧
      Shared root fills single (n + 1) { s with world := (storage.answer r now s.world).2 }
        ((directoryStorage root single).answer r now' w).2 := by
  obtain ⟨k, hk, rfl, hcount⟩ := h.handles storage hm
  have hboth : (directoryAt root).HasRoom (s.world.draftCount k) ↔
      (directoryAt root).HasRoom (w.draftCount single) :=
    (hroom _ hcount).trans (hroom _ h.count).symm
  have hdisks : (directoryAt root).Paired fills (s.world.disk, s.world.draftCount k).1
      (w.disk, w.draftCount single).1 := h.paired
  obtain ⟨hresult, hpaired⟩ := hdisks.answer hboth hr hf now now'
  have hgrown := (directoryAt root).count_answer_le r now (s.world.disk, s.world.draftCount k)
  have hgrown' := (directoryAt root).count_answer_le r now' (w.disk, w.draftCount single)
  refine ⟨?result, ?paired, ?unused, ?handles, ?count⟩
  case result =>
    rw [result_directoryStorage, result_directoryStorage]
    exact hresult
  case paired =>
    rw [disk_directoryStorage, disk_directoryStorage]
    exact hpaired
  case unused =>
    intro j hj
    rw [fresh_directoryStorage] at hj
    rw [drafts_directoryStorage, OrderedMap.get?_put, if_neg (by omega)]
    exact h.unused j hj
  case handles =>
    intro other hother
    obtain ⟨j, hj, he, hjcount⟩ := h.handles other hother
    refine ⟨j, hj, he, ?_⟩
    rw [draftCount_directoryStorage]
    split
    · exact hgrown.trans (Nat.succ_le_succ hcount)
    · exact Nat.le_succ_of_le hjcount
  case count =>
    rw [draftCount_directoryStorage, if_pos rfl]
    exact hgrown'.trans (Nat.succ_le_succ h.count)

/-- Locks are kept beside what the handles share. -/
theorem locked (h : Shared root fills single n s w) {storage : Storage World} (hm : storage ∈ s.all)
    (action : LockAction) :
    Shared root fills single (n + 1) { s with world := storage.locking.act s.world action } w := by
  obtain ⟨k, hk, rfl, hcount⟩ := h.handles storage hm
  rw [act_directoryStorage]
  refine ⟨h.paired, ?unused, ?handles, Nat.le_succ_of_le h.count⟩
  case unused =>
    intro j hj
    show (s.world.drafts.put k (s.world.draftCount k)).get? j = none
    have hne : k < j := Nat.lt_of_lt_of_le hk hj
    rw [OrderedMap.get?_put, if_neg hne.ne]
    exact h.unused j hj
  case handles =>
    intro other hother
    obtain ⟨j, hj, he, hjcount⟩ := h.handles other hother
    refine ⟨j, hj, he, ?_⟩
    show ((s.world.drafts.put k (s.world.draftCount k)).get? j).getD 0 ≤ n + 1
    rw [OrderedMap.get?_put]
    split
    · exact Nat.le_succ_of_le hcount
    · exact Nat.le_succ_of_le hjcount

/-- **Directories.** Handles on one directory answer every run as a single handle does. -/
theorem answers (h : Shared root fills single 0 s w) (clock clock' : Nat → Time)
    {steps : List HandleStep}
    (hroom : ∀ serial < steps.length,
      (directoryAt root).HasRoom serial ↔ (directoryAt root).HasRoom 0)
    (hr : ∀ r ∈ steps.filterMap HandleStep.request?,
      (∀ key ∈ r.named, IsShown key) ∧ (r.destination? = some .root → fills)) :
    Handles.answers (directoryOpener root) clock steps 0 s =
      .ok ((directoryStorage root single).observe clock'
        (steps.filterMap HandleStep.request?) 0 w) := by
  refine Handles.answers_eq (R := Shared root fills single)
    (fun n now s w h => ⟨_, _, directoryOpener_eq root now _, h.opened⟩)
    (fun n now s w h => ⟨_, _, directoryOpener_eq root now _, h.reopened⟩)
    ?_ (fun n s w h storage hm action => h.locked hm action) 0 (Nat.le_refl _) hr h
  intro n m s w hn h storage hm r hr
  exact h.asked hm (fun serial hs => hroom serial (by omega)) hr.1 hr.2 (clock n) (clock' m)

end Shared

/-! ## Room for drafts -/

section

variable {dir : Directory} {base d : Disk} {place : Place} {key : Key} {p : DiskPath}
  {serial count : Nat} {root : String} {broken : Content} {cause : ContentError} {w : World}

end

end Directory

end BlobStore
