import BlobStore.Proofs.Directory.Stored
import BlobStore.Proofs.Disk.Growth

/-!
# Drafts

Between its requests a storage in a directory has no draft: there may be the directory for drafts,
but nothing is in it. While a save goes on there is one. A draft is opened, written and dropped
where no value can be, so nothing changes where values can be. It cannot be opened if its name is
over the limits; then the directory for drafts may have been made, but no draft.

## Main definitions

* `Directory.Rests`: a directory without drafts
* `Directory.Drafting`: a directory with one draft
* `Directory.Untouched`: nothing has changed where values can be

## Main results

* `Directory.Rests.openDraft`: a draft is opened, or nothing is left of it
* `Directory.Rests.openDraft_shortage`: why a draft is not opened
* `Directory.Drafting.append`, `Directory.Drafting.drop`: a draft is written and dropped
-/

namespace BlobStore

namespace Directory

variable {dir : Directory} {base d d' : Disk} {root : Place} {serial : Nat} {draft : DraftFile}
  {bytes : Bytes}

/-! ## Names of drafts -/

/-- The name of a draft. -/
def draftName (dir : Directory) (serial : Nat) : FileName := .text s!"{dir.process}-{serial}"

/-- The name of a draft is within the limits of a disk. -/
def HasRoom (dir : Directory) (serial : Nat) : Prop :=
  Disk.isTooLong (dir.draftName serial) = false ∧ Disk.refuse (dir.draftPath serial) = none

instance decidableHasRoom (dir : Directory) (serial : Nat) : Decidable (dir.HasRoom serial) :=
  inferInstanceAs (Decidable (_ ∧ _))

theorem draftPath_eq (dir : Directory) (serial : Nat) :
    dir.draftPath serial = dir.rootPath.descend ([draftsName] ++ [dir.draftName serial]) := rfl

theorem isName_draftName (dir : Directory) (serial : Nat) :
    DiskPath.IsName (dir.draftName serial) := by
  have hne : ∀ text : String, '-' ∉ text.toList → dir.draftName serial ≠ .text text := by
    intro text htext he
    rw [← FileName.text.inj he] at htext
    simp [ToString.toString] at htext
  exact ⟨hne _ (by simp), hne _ (by simp), hne _ (by simp)⟩

theorem isName_draftsName : DiskPath.IsName draftsName := ⟨by decide, by decide, by decide⟩

theorem isName_draft (dir : Directory) (serial : Nat) :
    ∀ name ∈ [draftsName] ++ [dir.draftName serial], DiskPath.IsName name := by
  intro name hn
  rcases List.mem_append.mp hn with hn | hn
  · exact List.mem_singleton.mp hn ▸ isName_draftsName
  · exact List.mem_singleton.mp hn ▸ dir.isName_draftName serial

theorem HasRoom.admits {serial : Nat} (h : dir.HasRoom serial) :
    Disk.Admits dir.rootPath ([draftsName] ++ [dir.draftName serial]) where
  isName := dir.isName_draft serial
  short name hn := by
    rcases List.mem_append.mp hn with hn | hn
    · obtain rfl := List.mem_singleton.mp hn
      decide
    · obtain rfl := List.mem_singleton.mp hn
      exact h.1
  accepted := h.2

/-- The directory for drafts can be made, unless no call accepts its path. -/
theorem admits_drafts (h : Disk.refuse dir.draftsPath = none) :
    Disk.Admits dir.rootPath [draftsName] where
  isName := by simpa using isName_draftsName
  short name hn := by
    obtain rfl := List.mem_singleton.mp hn
    decide
  accepted := h

/-- Why a draft is not opened whose name is over the limits. -/
def shortage (dir : Directory) : DiskError := (Disk.refuse dir.draftsPath).getD .nameTooLong

theorem hasNul_draftName (dir : Directory) (serial : Nat) :
    (dir.draftName serial).hasNul = false := by
  have hdigits : ∀ n : Nat, '\x00' ∉ Nat.toDigits 10 n := by
    intro n hm
    have hdigit := Nat.isDigit_of_mem_toDigits (by decide) (by decide) hm
    cases hdigit
  simp [draftName, FileName.hasNul, ToString.toString, hdigits]

/-- If the path of the directory for drafts is accepted, that of a draft can only be too long. -/
theorem refuse_draftPath (h : Disk.refuse dir.draftsPath = none) {e : DiskError}
    (he : Disk.refuse (dir.draftPath serial) = some e) : e = .nameTooLong := by
  obtain ⟨hnul, -, -⟩ := Disk.refuse_eq_none_iff.mp h
  have hpieces : (dir.draftPath serial).pieces =
      dir.draftsPath.pieces ++ [dir.draftName serial] := by
    unfold draftPath draftsPath
    rw [DiskPath.child_pieces, DiskPath.base_child isName_draftsName.1, DiskPath.child_pieces]
    rfl
  have hopen : (dir.draftPath serial).isEmpty = false :=
    DiskPath.isEmpty_child (dir.isName_draftName serial).1
  unfold Disk.refuse at he
  split at he
  · rename_i hany
    simp only [List.any_eq_true, hpieces, List.mem_append, List.mem_singleton] at hany
    obtain ⟨piece, hp | rfl, hc⟩ := hany
    · rw [hnul piece hp] at hc
      cases hc
    · rw [dir.hasNul_draftName serial] at hc
      cases hc
  · simp only [hopen, Bool.false_eq_true, if_false] at he
    split at he
    · exact (Option.some.inj he).symm
    · cases he

theorem not_visible_draft (way : List FileName) : ¬ Visible (draftsName :: way) :=
  fun h => h.2 rfl

/-- No draft is in the place of a key that does not lead to the drafts. -/
theorem draft_ne (dir : Directory) {names : List FileName}
    (h : names.head? ≠ some draftsName) (serial : Nat) :
    [draftsName] ++ [dir.draftName serial] ≠ names := fun he => h (he ▸ rfl)

theorem prefix_draftsName {front : List FileName} (h : front <+: [draftsName]) :
    front = [] ∨ front = [draftsName] := by
  have hp : front <+: [] ++ [draftsName] := h
  rcases List.prefix_concat_iff.mp hp with rfl | h
  · exact Or.inr rfl
  · exact Or.inl (List.prefix_nil.mp h)

/-! ## States -/

/-- A directory at `root` without drafts; elsewhere the disk is as it was. -/
structure Rests (dir : Directory) (base : Disk) (root : Place) (d : Disk) : Prop where
  rooted : d.Rooted base dir.rootPath root
  sound : d.Sound
  place : d.at? (root ++ [draftsName]) = none ∨ d.at? (root ++ [draftsName]) = some .directory
  idle : ∀ way, way ≠ [] → d.at? (root ++ draftsName :: way) = none

/-- A directory at `root` with one draft. -/
structure Drafting (dir : Directory) (base : Disk) (root : Place) (d : Disk) (draft : DraftFile)
    (bytes : Bytes) : Prop where
  rooted : d.Rooted base dir.rootPath root
  sound : d.Sound
  file : ∃ file,
    d.at? (root ++ ([draftsName] ++ [dir.draftName draft.serial])) = some (.file file) ∧
      file.number = draft.number ∧ file.bytes = bytes
  alone : ∀ place file, d.at? place = some (.file file) → file.number = draft.number →
    place = root ++ ([draftsName] ++ [dir.draftName draft.serial])
  idle : ∀ way, way ≠ [] → way ≠ [dir.draftName draft.serial] →
    d.at? (root ++ draftsName :: way) = none

/-- Nothing has changed where values can be. -/
def Untouched (d d' : Disk) (root : Place) : Prop :=
  ∀ way, Visible way → d'.at? (root ++ way) = d.at? (root ++ way)

theorem Untouched.refl (d : Disk) (root : Place) : Untouched d d root := fun _ _ => rfl

theorem Untouched.trans {d'' : Disk} (h : Untouched d d' root) (h' : Untouched d' d'' root) :
    Untouched d d'' root := fun way hv => (h' way hv).trans (h way hv)

theorem untouched_of_changed {way : List FileName} {stands? : Option DiskEntry}
    (hc : d.Changed d' (root ++ way) stands?) (hway : ¬ Visible way) : Untouched d d' root :=
  fun _ hv => hc.elsewhere (hv.ne hway)

/-! ## Opening -/

/-- Nothing is made if no call accepts the path of the directory for drafts. -/
theorem makeDrafts_refused {e : DiskError} (he : Disk.refuse dir.draftsPath = some e) :
    d.makeDirectories dir.draftsPath = (.error e, d) := by
  have hentry : e ≠ .noEntry := by
    rintro rfl
    unfold Disk.refuse at he
    rw [show dir.draftsPath.isEmpty = false from DiskPath.isEmpty_child isName_draftsName.1] at he
    split_ifs at he <;> simp_all
  have hensure : d.ensureDirectory dir.draftsPath = .error e := by
    unfold Disk.ensureDirectory Disk.makeDirectory Disk.locate Disk.approach Disk.isDirectory
      Disk.stat Disk.walk Disk.reach
    rw [he]
    rfl
  have hbare : (dir.rootPath.descend ([] ++ [draftsName])).bare = dir.draftsPath :=
    DiskPath.bare_child isName_draftsName
  rw [← hbare]
  exact Disk.makeDirectories_of_error isName_draftsName hensure hentry

namespace Rests

/-- The directory for drafts is made, if it is not there and can be made, and nothing in it. -/
theorem makeDrafts (h : dir.Rests base root d) :
    dir.Rests base root (d.makeDirectories dir.draftsPath).2 ∧
      Untouched d (d.makeDirectories dir.draftsPath).2 root ∧
      ((d.makeDirectories dir.draftsPath).1 = .ok () →
        (d.makeDirectories dir.draftsPath).2.at? (root ++ [draftsName]) = some .directory) := by
  have hdrafts : dir.draftsPath = (dir.rootPath.descend [draftsName]).bare :=
    (DiskPath.bare_child isName_draftsName).symm
  have hname : ∀ name ∈ [draftsName], DiskPath.IsName name := by simpa using isName_draftsName
  have hmade := h.rooted.makeDirectories_made h.sound hname
  rw [← hdrafts] at hmade
  refine ⟨⟨hmade.rooted, hmade.sound, ?place, ?idle⟩, ?untouched, hmade.last⟩
  case place =>
    rcases hmade.grown (root ++ [draftsName]) with he | ⟨-, hdir, -⟩
    · rw [he]
      exact h.place
    · exact Or.inr hdir
  case idle =>
    intro way hway
    rcases hmade.grown (root ++ draftsName :: way) with he | ⟨-, -, front, -, hp, -, hplace⟩
    · rw [he, h.idle way hway]
    · rcases prefix_draftsName hp with rfl | rfl
      · simp at hplace
      · exact absurd (by simpa using hplace) hway
  case untouched =>
    intro way hv
    rcases hmade.grown (root ++ way) with he | ⟨-, -, front, hne, hp, -, hplace⟩
    · exact he
    · obtain rfl := List.append_cancel_left hplace
      rcases prefix_draftsName hp with rfl | rfl
      · exact absurd rfl hne
      · exact absurd rfl hv.2

theorem makeDrafts_ok (h : dir.Rests base root d)
    (ha : Disk.Admits dir.rootPath [draftsName]) :
    (d.makeDirectories dir.draftsPath).1 = .ok () := by
  have hfront : ∀ front, front <+: [draftsName] → ∀ file,
      d.at? (root ++ front) ≠ some (.file file) := by
    intro front hp file hat
    rcases prefix_draftsName hp with rfl | rfl
    · rw [List.append_nil, h.rooted.directory] at hat
      cases hat
    · rcases h.place with hp | hp
      · rw [hp] at hat
        cases hat
      · rw [hp] at hat
        cases hat
  obtain ⟨d', hmake, -⟩ := h.rooted.makeDirectories h.sound ha hfront
  have hdrafts : dir.draftsPath = (dir.rootPath.descend [draftsName]).bare :=
    (DiskPath.bare_child isName_draftsName).symm
  rw [hdrafts, hmake]

/-- A draft is opened, or its name is over the limits and there is none. -/
theorem openDraft (h : dir.Rests base root d) (serial : Nat) (now : Time) :
    (dir.HasRoom serial ∧ ∃ number d', dir.openDraft serial now d = (.ok number, d') ∧
        dir.Drafting base root d' ⟨serial, number⟩ [] ∧ Untouched d d' root) ∨
      (¬ dir.HasRoom serial ∧ ∃ e d', dir.openDraft serial now d = (.error e, d') ∧
        dir.Rests base root d' ∧ Untouched d d' root) := by
  obtain ⟨h₁, huntouched, hdir⟩ := h.makeDrafts
  have hok := h.makeDrafts_ok
  unfold Directory.openDraft
  generalize d.makeDirectories dir.draftsPath = outcome at h₁ huntouched hdir hok ⊢
  obtain ⟨result, d₁⟩ := outcome
  cases result with
  | error e =>
    refine Or.inr ⟨?_, e, d₁, rfl, h₁, huntouched⟩
    intro hroom
    cases hok (hroom.admits.of_append h.rooted.led.accepted)
  | ok =>
    have hdir := hdir rfl
    dsimp only at h₁ huntouched hdir ⊢
    rw [draftPath_eq]
    cases hl : d₁.lookUp dir.rootPath root [draftsName] (dir.draftName serial) with
    | error e =>
      have hopen : (dir.rootPath.descend ([draftsName] ++ [dir.draftName serial])).closed =
          false := DiskPath.closed_concat _ (dir.isName_draftName serial).1
      have hcreate : d₁.createFile (dir.rootPath.descend ([draftsName] ++ [dir.draftName serial]))
          now = .error e := by
        unfold Disk.createFile Disk.openFile
        rw [hopen, h₁.rooted.reach_eq (isName_draft dir serial), hl]
        rfl
      refine Or.inr ⟨?_, e, d₁, by rw [hcreate], h₁, huntouched⟩
      intro hroom
      rw [h₁.rooted.lookUp_free hroom.admits hdir] at hl
      cases hl
    | ok found =>
      left
      have ha := Disk.lookUp_admits (isName_draft dir serial) hl
      have hat : d₁.at? (root ++ ([draftsName] ++ [dir.draftName serial])) = none :=
        h₁.idle _ (by simp)
      obtain ⟨d₂, hcreate, hc⟩ := h₁.rooted.createFile h₁.sound ha hdir hat now
      refine ⟨⟨ha.short _ (by simp), ha.accepted⟩, d₁.fresh, d₂, by rw [hcreate],
        ⟨h₁.rooted.with_file hc hdir (by rw [hat]; simp), hc.sound, ⟨_, hc.here, rfl, rfl⟩, ?_, ?_⟩,
        huntouched.trans (untouched_of_changed hc (not_visible_draft _))⟩
      · intro place file hat hnumber
        rw [hc.at?] at hat
        split at hat
        · rename_i he
          exact he.symm
        · exact absurd (hnumber ▸ h₁.sound.numbered place file hat) (Nat.lt_irrefl _)
      · intro way hway hne
        have hother : draftsName :: way ≠ [draftsName] ++ [dir.draftName serial] := by
          simpa using hne
        rw [hc.elsewhere hother, h₁.idle way hway]

/-- Drafts whose names are over the limits fail alike, whatever their numbers. -/
theorem openDraft_shortage (h : dir.Rests base root d) (hroom : ¬ dir.HasRoom serial) (now : Time) :
    (dir.openDraft serial now d).1 = .error dir.shortage := by
  unfold Directory.openDraft shortage
  cases hr : Disk.refuse dir.draftsPath with
  | some e =>
    rw [makeDrafts_refused hr]
    rfl
  | none =>
    obtain ⟨hrests, -, hdir⟩ := h.makeDrafts
    have hok := h.makeDrafts_ok (admits_drafts hr)
    generalize d.makeDirectories dir.draftsPath = outcome at hrests hdir hok ⊢
    obtain ⟨result, d₁⟩ := outcome
    obtain rfl : result = .ok () := hok
    have hopen : (dir.rootPath.descend ([draftsName] ++ [dir.draftName serial])).closed = false :=
      DiskPath.closed_concat _ (dir.isName_draftName serial).1
    have hl : d₁.lookUp dir.rootPath root [draftsName] (dir.draftName serial) =
        .error .nameTooLong := by
      unfold Disk.lookUp
      rw [← draftPath_eq]
      cases hp : Disk.refuse (dir.draftPath serial) with
      | some e =>
        obtain rfl := refuse_draftPath hr hp
        rfl
      | none =>
        have henter : d₁.enter root [draftsName] = .ok (root ++ [draftsName]) := by
          refine Disk.enter_directories (admits_drafts hr).short fun front hne hfront => ?_
          rw [(prefix_draftsName hfront).resolve_left hne]
          exact hdir rfl
        have hlong : Disk.isTooLong (dir.draftName serial) = true := by
          by_contra hshort
          exact hroom ⟨by simpa using hshort, hp⟩
        simp only [henter, hlong, if_true]
    dsimp only at hrests ⊢
    unfold Disk.createFile Disk.openFile
    rw [draftPath_eq, hopen, hrests.rooted.reach_eq (dir.isName_draft serial), hl]
    rfl

/-- Without a draft there is nothing to drop. -/
theorem dropDraft (h : dir.Rests base root d) (serial : Nat) : (dir.dropDraft serial d).2 = d := by
  unfold Directory.dropDraft
  simp only [draftPath_eq]
  rw [h.rooted.removeFile_eq (isName_draft dir serial)]
  cases hl : d.lookUp dir.rootPath root [draftsName] (dir.draftName serial) with
  | error e => cases e <;> rfl
  | ok found =>
    obtain ⟨rfl, -⟩ := Disk.lookUp_eq_ok hl
    have hat : d.at? (root ++ ([draftsName] ++ [dir.draftName serial])) = none := h.idle _ (by simp)
    rw [hat]

end Rests

/-! ## Writing and dropping -/

namespace Drafting

theorem place (h : dir.Drafting base root d draft bytes) :
    d.at? (root ++ [draftsName]) = some .directory := by
  obtain ⟨file, hat, -, -⟩ := h.file
  exact h.rooted.nested _ _ (by rw [hat]; rfl)

/-- A piece is written behind what the draft holds. -/
theorem append (h : dir.Drafting base root d draft bytes) (piece : Bytes) (now : Time) :
    ∃ d', appendDraft { bytes, file := some draft } piece now d =
        ({ bytes := bytes ++ piece, file := some draft }, d') ∧
      dir.Drafting base root d' draft (bytes ++ piece) ∧ Untouched d d' root := by
  refine ⟨_, rfl, ?_⟩
  obtain ⟨file, hat, hnumber, rfl⟩ := h.file
  show dir.Drafting base root (d.overwrite draft.number file.bytes.length piece now) draft _ ∧ _
  unfold Disk.overwrite
  split
  · rename_i hempty
    rw [List.isEmpty_iff.mp hempty, List.append_nil]
    exact ⟨h, .refl d root⟩
  · have hc := h.sound.changed_mapFile hat (fun place file' hat' he => h.alone place file' hat'
      (he.trans hnumber)) (by simp) (Disk.splice file.bytes.length piece) now
    rw [hnumber, Disk.splice_length] at hc
    refine ⟨⟨h.rooted.with_file hc h.place (by rw [hat]; simp), hc.sound,
      ⟨_, hc.here, rfl, rfl⟩, ?alone, ?idle⟩, untouched_of_changed hc (not_visible_draft _)⟩
    case alone =>
      intro place file' hat' he
      rw [hc.at?] at hat'
      split at hat'
      · rename_i hp
        exact hp.symm
      · exact h.alone place file' hat' he
    case idle =>
      intro way hway hne
      have hother : draftsName :: way ≠ [draftsName] ++ [dir.draftName draft.serial] := by
        simpa using hne
      rw [hc.elsewhere hother, h.idle way hway hne]

/-- Once the draft is gone from its place, the directory rests. -/
theorem rests (h : dir.Drafting base root d draft bytes) (hr : d'.Rooted base dir.rootPath root)
    (hs : d'.Sound)
    (hgone : d'.at? (root ++ ([draftsName] ++ [dir.draftName draft.serial])) = none)
    (hframe : ∀ way, ¬ Visible way → way ≠ [draftsName] ++ [dir.draftName draft.serial] →
      d'.at? (root ++ way) = d.at? (root ++ way)) : dir.Rests base root d' where
  rooted := hr
  sound := hs
  place := by
    rw [hframe _ (not_visible_draft []) (by simp), h.place]
    exact Or.inr rfl
  idle way hway := by
    by_cases hdraft : way = [dir.draftName draft.serial]
    · subst hdraft
      exact hgone
    · have hother : draftsName :: way ≠ [draftsName] ++ [dir.draftName draft.serial] := by
        simpa using hdraft
      rw [hframe _ (not_visible_draft way) hother, h.idle way hway hdraft]

/-- A draft is dropped without a trace. -/
theorem drop (h : dir.Drafting base root d draft bytes) (hroom : dir.HasRoom draft.serial) :
    ∃ d', dir.dropDraft draft.serial d = ([], d') ∧ dir.Rests base root d' ∧
      Untouched d d' root := by
  obtain ⟨file, hat, -, -⟩ := h.file
  obtain ⟨d', hremove, hc⟩ := h.rooted.removeFile h.sound hroom.admits hat
  refine ⟨d', ?_, h.rests (h.rooted.without_file hc hat) hc.sound hc.here ?_,
    untouched_of_changed hc (not_visible_draft _)⟩
  · unfold Directory.dropDraft
    simp only [draftPath_eq, hremove]
  · intro way _ hdraft
    exact hc.elsewhere hdraft

end Drafting

end Directory

end BlobStore
