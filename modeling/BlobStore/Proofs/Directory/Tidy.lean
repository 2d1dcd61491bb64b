import BlobStore.Proofs.Directory.Leftover

/-!
# Directories in which every file can be found

Whatever a storage in a directory is asked, and with whatever keys, it puts files only where the
path of their key leads. Keys may lead to the drafts, so that a draft takes the place of a value or
becomes one; a save may be written while other requests are answered. Nothing of that puts a file
where it cannot be found, or writes to a file that was there before the storage.

## Main definitions

* `Directory.Placed`: a file where the storage can have put it
* `Directory.Tidy`: a directory below which there are only such files
* `Directory.Lends`: a draft that was handed out by the storage

## Main results

* `Disk.Rooted.renameFile_cases`: what comes of a file renamed in a tree
* `Directory.Tidy.answer`: every request leaves a tidy directory tidy
* `Directory.Tidy.startSave`, `Directory.Tidy.append`, `Directory.Tidy.finishSave`,
  `Directory.Tidy.abandonSave`: so does every step of a save
-/

namespace BlobStore

/-! ## Files renamed -/

namespace Disk

namespace Rooted

variable {d base : Disk} {p : DiskPath} {root : Place} {names others : List FileName}
  {name other : FileName}

/-- Nothing but a file is renamed. -/
theorem renameFile_missing (h : d.Rooted base p root)
    (hn : ∀ other ∈ names ++ [name], DiskPath.IsName other)
    (hno : ∀ file, d.at? (root ++ (names ++ [name])) ≠ some (.file file)) (target : DiskPath) :
    ∃ e, d.renameFile (p.descend (names ++ [name])) target = .error e := by
  unfold Disk.renameFile
  rw [h.approach_eq hn]
  cases refuse (p.descend (names ++ [name])) with
  | some e => exact ⟨e, rfl⟩
  | none =>
    cases he : d.enter root names with
    | error e => exact ⟨e, rfl⟩
    | ok here =>
      obtain ⟨rfl, -, -⟩ := enter_eq_ok he
      rcases d.approach target with e | ⟨there, _ | last⟩
      · exact ⟨e, rfl⟩
      · exact ⟨.busy, rfl⟩
      · simp only [Except.map, List.append_assoc]
        rcases hat : d.at? (root ++ (names ++ [name])) with _ | ⟨_ | file | target⟩
        · exact ⟨_, rfl⟩
        · exact ⟨.invalid, rfl⟩
        · exact absurd hat (hno file)
        · exact absurd hat (h.linkless _ target)

/-- A file that is given the name it has stays. -/
theorem renameFile_self (h : d.Rooted base p root)
    (hn : ∀ other ∈ names ++ [name], DiskPath.IsName other) :
    (∃ e, d.renameFile (p.descend (names ++ [name])) (p.descend (names ++ [name])) = .error e) ∨
      d.renameFile (p.descend (names ++ [name])) (p.descend (names ++ [name])) = .ok d := by
  by_cases hfile : ∃ file, d.at? (root ++ (names ++ [name])) = some (.file file)
  case neg => exact Or.inl (h.renameFile_missing hn (fun file hat => hfile ⟨file, hat⟩) _)
  obtain ⟨file, hat⟩ := hfile
  unfold Disk.renameFile
  rw [h.approach_eq hn]
  cases refuse (p.descend (names ++ [name])) with
  | some e => exact Or.inl ⟨e, rfl⟩
  | none =>
    cases he : d.enter root names with
    | error e => exact Or.inl ⟨e, rfl⟩
    | ok here =>
      obtain ⟨rfl, -, -⟩ := enter_eq_ok he
      simp only [Except.map, List.append_assoc, hat]
      split_ifs
      · exact Or.inl ⟨_, rfl⟩
      · exact Or.inl ⟨_, rfl⟩
      · exact Or.inl ⟨_, rfl⟩
      · exact Or.inr rfl

/-- A file is renamed, in place of another one perhaps, or nothing changes. -/
theorem renameFile_cases (h : d.Rooted base p root) (hs : d.Sound)
    (ho : ∀ segment ∈ others ++ [other], DiskPath.IsName segment)
    (hn : ∀ segment ∈ names ++ [name], DiskPath.IsName segment)
    (ha : ∀ file, d.at? (root ++ (others ++ [other])) = some (.file file) →
      Admits p (others ++ [other])) :
    (∃ e, d.renameFile (p.descend (others ++ [other])) (p.descend (names ++ [name])) = .error e) ∨
      d.renameFile (p.descend (others ++ [other])) (p.descend (names ++ [name])) = .ok d ∨
      ∃ file d₁ d₂,
        d.renameFile (p.descend (others ++ [other])) (p.descend (names ++ [name])) = .ok d₂ ∧
        d.at? (root ++ (others ++ [other])) = some (.file file) ∧ Admits p (names ++ [name]) ∧
        d.Changed d₁ (root ++ (others ++ [other])) none ∧
        d₁.Changed d₂ (root ++ (names ++ [name])) (some (.file file)) ∧ d₂.Rooted base p root := by
  by_cases hfile : ∃ file, d.at? (root ++ (others ++ [other])) = some (.file file)
  case neg => exact Or.inl (h.renameFile_missing ho (fun file hat => hfile ⟨file, hat⟩) _)
  obtain ⟨file, hat⟩ := hfile
  by_cases hne : others ++ [other] = names ++ [name]
  · rw [hne]
    exact (h.renameFile_self hn).imp_right Or.inl
  rw [h.renameFile_eq (ha file hat) hat hn hne]
  cases hl : d.lookUp p root names name with
  | error e => exact Or.inl ⟨e, rfl⟩
  | ok found =>
    obtain ⟨hfound, -⟩ := lookUp_eq_ok hl
    by_cases hdirectory : found = some .directory
    · subst hdirectory
      exact Or.inl ⟨_, rfl⟩
    · obtain ⟨hgone, hput⟩ := changed_rename hs (by simp) (root ++ (names ++ [name])) (by simp) hat
      have hrooted := h.with_renamed hgone hput hat (h.directory_of_lookUp hl)
        (by rw [← hfound]; exact hdirectory) hne
      refine Or.inr (Or.inr ⟨file, _, _, ?_, hat, lookUp_admits hn hl, hgone, hput, hrooted⟩)
      rcases found with _ | ⟨_ | _ | _⟩
      · rfl
      · exact absurd rfl hdirectory
      · rfl
      · rfl

end Rooted

end Disk

namespace Directory

variable {dir : Directory} {key : Key} {base d d' : Disk} {root : Place}
  {names others : List FileName} {name other : FileName} {number : Nat} {draft : Draft}

/-! ## Tidy directories -/

/-- A number that no file had before the storage. -/
def Own (base : Disk) (number : Nat) : Prop :=
  ∀ place file, base.at? place = some (.file file) → file.number ≠ number

/-- A file where the storage can have put it: the path of its key leads there. -/
structure Placed (dir : Directory) (base : Disk) (way : List FileName) (file : DiskFile) :
    Prop where
  plain : ∀ segment ∈ way, isPlainName segment
  admits : Disk.Admits dir.rootPath way
  own : Own base file.number

/-- A directory at `root` below which all files are where the storage can have put them; elsewhere
the disk is as it was. -/
structure Tidy (dir : Directory) (base : Disk) (root : Place) (d : Disk) : Prop where
  rooted : d.Rooted base dir.rootPath root
  sound : d.Sound
  placed : ∀ way file, d.at? (root ++ way) = some (.file file) → dir.Placed base way file

/-- A draft whose file the storage has made. -/
def Lends (base : Disk) (draft : Draft) : Prop :=
  ∀ file, draft.file = some file → Own base file.number

namespace Tidy

/-- Directories are made where they can be. -/
theorem makeDirectories (h : dir.Tidy base root d)
    (hn : ∀ name ∈ names, DiskPath.IsName name) :
    dir.Tidy base root (d.makeDirectories (dir.rootPath.descend names).bare).2 := by
  have hmade := h.rooted.makeDirectories_made h.sound hn
  exact ⟨hmade.rooted, hmade.sound, fun way file hat =>
    h.placed way file ((file_iff_of_grown hmade.grown).mp hat)⟩

/-- Where nothing is put there are no more files. -/
theorem gone {place : Place} (h : dir.Tidy base root d) (hc : d.Changed d' place none)
    (hr : d'.Rooted base dir.rootPath root) : dir.Tidy base root d' where
  rooted := hr
  sound := hc.sound
  placed way file hat := by
    rw [hc.at?] at hat
    split at hat
    · cases hat
    · exact h.placed way file hat

/-- A file is put where the path of its key leads. -/
theorem put {way : List FileName} {file : DiskFile} (h : dir.Tidy base root d)
    (hc : d.Changed d' (root ++ way) (some (.file file)))
    (hr : d'.Rooted base dir.rootPath root) (hp : dir.Placed base way file) :
    dir.Tidy base root d' where
  rooted := hr
  sound := hc.sound
  placed other stands hat := by
    rw [hc.at?] at hat
    split at hat
    · rename_i he
      obtain rfl := List.append_cancel_left he
      cases hat
      exact hp
    · exact h.placed other stands hat

/-! ## Files -/

/-- The numbers that are not used up are the storage's own. -/
theorem own_fresh (h : dir.Tidy base root d) : Own base d.fresh := by
  intro place file hat he
  have hlt := h.sound.numbered place file (h.rooted.includes place _ hat)
  omega

/-- What is written to a file of the storage is written below the root. -/
theorem mapFile (h : dir.Tidy base root d) (hown : Own base number) (f : Bytes → Bytes)
    (now : Time) : dir.Tidy base root (d.mapFile number f now) := by
  unfold Disk.mapFile
  split
  case h_2 => exact h
  rename_i place file hfind
  obtain ⟨hplace, hat, rfl⟩ := h.sound.at?_of_find? hfind
  obtain ⟨way, hway, rfl⟩ : ∃ way, way ≠ [] ∧ place = root ++ way := by
    by_contra hout
    rw [h.rooted.same place fun way hne he => hout ⟨way, hne, he⟩] at hat
    exact hown place file hat rfl
  obtain ⟨names, name, rfl⟩ := List.eq_nil_or_concat' way |>.resolve_left hway
  have hc : d.Changed (d.put (root ++ (names ++ [name]))
      (.file { file with bytes := f file.bytes, written := now })) (root ++ (names ++ [name]))
      (some (.file { file with bytes := f file.bytes, written := now })) := by
    refine Disk.changed_put h.sound hplace fun file' he => ?_
    cases he
    exact h.sound.numbered _ file hat
  have hdir : d.at? (root ++ names) = some .directory :=
    h.rooted.nested names name (by rw [hat]; rfl)
  obtain ⟨hplain, hadmits, -⟩ := h.placed _ file hat
  exact h.put hc (h.rooted.with_file hc hdir (by rw [hat]; simp)) ⟨hplain, hadmits, hown⟩

/-- A file that is opened below the root is the storage's own, whether it was there or not. -/
theorem openFile (h : dir.Tidy base root d)
    (hplain : ∀ segment ∈ names ++ [name], isPlainName segment) {now : Time} {file : DiskFile}
    (hopen : d.openFile (dir.rootPath.descend (names ++ [name])) now = .ok (file, d')) :
    dir.Tidy base root d' ∧ Own base file.number := by
  have hn := fun segment hs => isName_of_isPlain (hplain segment hs)
  unfold Disk.openFile at hopen
  rw [DiskPath.closed_concat names (hn name (by simp)).1, h.rooted.reach_eq hn] at hopen
  cases hl : d.lookUp dir.rootPath root names name with
  | error e => simp [hl] at hopen
  | ok found =>
    obtain ⟨hfound, -⟩ := Disk.lookUp_eq_ok hl
    rw [hl] at hopen
    rcases found with _ | ⟨_ | stands | target⟩
    · unfold Disk.fileAt at hopen
      simp only [hfound.symm, if_true] at hopen
      cases hopen
      let made : Disk := { d.put (root ++ (names ++ [name])) (.file ⟨d.fresh, [], now, now⟩) with
        fresh := d.fresh + 1 }
      have hc : d.Changed made (root ++ (names ++ [name]))
          (some (.file ⟨d.fresh, [], now, now⟩)) :=
        ⟨Disk.at?_put (by simp) _, rfl, h.sound.enroll (by simp) rfl⟩
      have hdir := h.rooted.directory_of_lookUp hl
      exact ⟨h.put hc (h.rooted.with_file hc hdir (by rw [← hfound]; simp))
        ⟨hplain, Disk.lookUp_admits hn hl, h.own_fresh⟩, h.own_fresh⟩
    · simp [Disk.fileAt, ← hfound] at hopen
    · simp only [Disk.fileAt, ← hfound] at hopen
      cases hopen
      exact ⟨h, (h.placed _ _ hfound.symm).own⟩
    · exact absurd hfound.symm (h.rooted.linkless _ target)

/-- An empty file is made below the root, or one that is there is emptied. -/
theorem createFile (h : dir.Tidy base root d)
    (hplain : ∀ segment ∈ names ++ [name], isPlainName segment) {now : Time}
    (hcreate : d.createFile (dir.rootPath.descend (names ++ [name])) now = .ok (number, d')) :
    dir.Tidy base root d' ∧ Own base number := by
  unfold Disk.createFile at hcreate
  split at hcreate
  · cases hcreate
  · rename_i file d₁ hopen
    cases hcreate
    obtain ⟨htidy, hown⟩ := h.openFile hplain hopen
    exact ⟨htidy.mapFile hown _ now, hown⟩

/-- The file that is removed is below the root. -/
theorem removeFile (h : dir.Tidy base root d)
    (hn : ∀ segment ∈ names ++ [name], DiskPath.IsName segment)
    (hremove : d.removeFile (dir.rootPath.descend (names ++ [name])) = .ok d') :
    dir.Tidy base root d' := by
  rw [h.rooted.removeFile_eq hn] at hremove
  cases hl : d.lookUp dir.rootPath root names name with
  | error e => simp [hl] at hremove
  | ok found =>
    obtain ⟨hfound, -⟩ := Disk.lookUp_eq_ok hl
    rw [hl] at hremove
    rcases found with _ | ⟨_ | stands | target⟩
    · cases hremove
    · cases hremove
    · cases hremove
      have hc : d.Changed (d.erase (root ++ (names ++ [name]))) (root ++ (names ++ [name])) none :=
        Disk.changed_erase h.sound (by simp)
      exact h.gone hc (h.rooted.without_file hc hfound.symm)
    · exact absurd hfound.symm (h.rooted.linkless _ target)

/-- A file is renamed to where the path of a key leads. -/
theorem renameFile (h : dir.Tidy base root d)
    (ho : ∀ segment ∈ others ++ [other], DiskPath.IsName segment)
    (hplain : ∀ segment ∈ names ++ [name], isPlainName segment)
    (hrename : d.renameFile (dir.rootPath.descend (others ++ [other]))
      (dir.rootPath.descend (names ++ [name])) = .ok d') : dir.Tidy base root d' := by
  have hn := fun segment hs => isName_of_isPlain (hplain segment hs)
  rcases h.rooted.renameFile_cases h.sound ho hn (fun file hat => (h.placed _ file hat).admits) with
    ⟨e, he⟩ | he | ⟨file, d₁, d₂, he, hat, ha, hgone, hput, hr⟩
  · rw [he] at hrename
    cases hrename
  · rw [he] at hrename
    cases hrename
    exact h
  · rw [he] at hrename
    cases hrename
    exact (h.gone hgone (h.rooted.without_file hgone hat)).put hput hr
      ⟨hplain, ha, (h.placed _ file hat).own⟩

/-- A file is renamed after the directories for it are made, or stays. -/
theorem install (h : dir.Tidy base root d) (hb : dir.Settled base)
    (ho : ∀ segment ∈ others ++ [other], DiskPath.IsName segment)
    (hplain : ∀ name ∈ key.names, isPlainName name)
    (unmade unmoved : DiskError → StorageError) :
    dir.Tidy base root (Directory.install (dir.rootPath.descend (others ++ [other]))
      (dir.rootPath.descend key.names) unmade unmoved d).2 := by
  rcases List.eq_nil_or_concat' key.names with hnames | ⟨names, name, hnames⟩ <;>
    rw [hnames] at hplain ⊢
  · obtain ⟨e, hrename⟩ : ∃ e,
        d.renameFile (dir.rootPath.descend (others ++ [other])) dir.rootPath = .error e := by
      by_cases hfile : ∃ file, d.at? (root ++ (others ++ [other])) = some (.file file)
      · obtain ⟨file, hat⟩ := hfile
        obtain ⟨e, hroot⟩ := h.rooted.led.renameFile_root hb.unlinked
        exact ⟨e, hroot d others other file h.rooted (h.placed _ file hat).admits hat⟩
      · exact h.rooted.renameFile_missing ho (fun file hat => hfile ⟨file, hat⟩) _
    unfold Directory.install
    rw [DiskPath.descend_nil, h.rooted.makeParent hb.whole]
    simp only [hrename]
    exact h
  · have hmade := h.makeDirectories fun segment hs =>
      isName_of_isPlain (hplain segment (List.mem_append_left [name] hs))
    unfold Directory.install
    rw [DiskPath.parent_descend (isName_of_isPlain (hplain name (by simp)))]
    generalize d.makeDirectories (dir.rootPath.descend names).bare = outcome at hmade ⊢
    obtain ⟨result, d₁⟩ := outcome
    cases result with
    | error e => exact hmade
    | ok =>
      dsimp only at hmade ⊢
      cases hrename : d₁.renameFile (dir.rootPath.descend (others ++ [other]))
          (dir.rootPath.descend (names ++ [name])) with
      | error e => exact hmade
      | ok d₂ => exact hmade.renameFile ho hplain hrename

/-- Directories that are left empty are removed. -/
theorem prune (h : dir.Tidy base root d) (hn : ∀ segment ∈ names, DiskPath.IsName segment) :
    dir.Tidy base root (d.removeDirectories (dir.parents (dir.rootPath.descend names))) :=
  parents_induction hn (fun _ h => ⟨h.rooted, h.sound⟩)
    (fun _ _ _ _ _ h hc hr => h.gone hc hr) h

end Tidy

/-! ## Saves -/

/-- A draft has a name that a value can have, too. -/
theorem isPlain_draftName (dir : Directory) (serial : Nat) :
    isPlainName (dir.draftName serial) := by
  have hdigits : ∀ n : Nat, '/' ∉ Nat.toDigits 10 n := by
    intro n hm
    have hdigit := Nat.isDigit_of_mem_toDigits (by decide) (by decide) hm
    cases hdigit
  obtain ⟨hempty, hdot, hup⟩ := dir.isName_draftName serial
  simp only [draftName, ne_eq, FileName.text.injEq] at hempty hdot hup
  exact isPlain_iff.mpr ⟨hempty, hdot, hup, by simp [ToString.toString, hdigits]⟩

theorem isPlain_draft (dir : Directory) (serial : Nat) :
    ∀ segment ∈ [draftsName] ++ [dir.draftName serial], isPlainName segment := by
  intro segment hs
  rcases List.mem_append.mp hs with hs | hs
  · obtain rfl := List.mem_singleton.mp hs
    decide
  · obtain rfl := List.mem_singleton.mp hs
    exact dir.isPlain_draftName serial

namespace Tidy

/-- What has the name of a draft is removed, a value as well as a draft. -/
theorem dropDraft (h : dir.Tidy base root d) (serial : Nat) :
    dir.Tidy base root (dir.dropDraft serial d).2 := by
  unfold Directory.dropDraft
  simp only [draftPath_eq]
  split
  · rename_i hremove
    exact h.removeFile (dir.isName_draft serial) hremove
  · exact h
  · exact h

/-- The draft that is opened may be the file of a value, or of another draft. -/
theorem openDraft (h : dir.Tidy base root d) (serial : Nat) (now : Time) :
    dir.Tidy base root (dir.openDraft serial now d).2 ∧
      ∀ number, (dir.openDraft serial now d).1 = .ok number → Own base number := by
  have hdrafts : dir.draftsPath = (dir.rootPath.descend [draftsName]).bare :=
    (DiskPath.bare_child isName_draftsName).symm
  have hname : ∀ name ∈ [draftsName], DiskPath.IsName name := by simpa using isName_draftsName
  have hmade := h.makeDirectories hname
  unfold Directory.openDraft
  rw [hdrafts]
  generalize d.makeDirectories (dir.rootPath.descend [draftsName]).bare = outcome at hmade ⊢
  obtain ⟨result, d₁⟩ := outcome
  cases result with
  | error e => exact ⟨hmade, fun number he => by cases he⟩
  | ok =>
    dsimp only at hmade ⊢
    rw [draftPath_eq]
    cases hcreate : d₁.createFile
        (dir.rootPath.descend ([draftsName] ++ [dir.draftName serial])) now with
    | error e => exact ⟨hmade, fun number he => by cases he⟩
    | ok created =>
      obtain ⟨number, d₂⟩ := created
      obtain ⟨htidy, hown⟩ := hmade.createFile (dir.isPlain_draft serial) hcreate
      refine ⟨htidy, fun number' he => ?_⟩
      cases he
      exact hown

/-- A save starts with a draft of the storage, or without one. -/
theorem startSave (h : dir.Tidy base root d) (key : Key) (now : Time) (serial : Nat) :
    dir.Tidy base root (dir.startSave key now (d, serial)).2.1 ∧
      ∀ draft, (dir.startSave key now (d, serial)).1.result = .ok draft → Lends base draft := by
  obtain ⟨htidy, hown⟩ := h.openDraft serial now
  unfold Directory.startSave
  cases dir.path key with
  | error e => exact ⟨h, fun draft he => by cases he⟩
  | ok p =>
    dsimp only
    generalize dir.openDraft serial now d = opened at htidy hown ⊢
    obtain ⟨result, d₁⟩ := opened
    cases result with
    | error e => exact ⟨htidy.dropDraft serial, fun draft he => by cases he⟩
    | ok number =>
      refine ⟨htidy, fun draft he file hf => ?_⟩
      cases he
      cases hf
      exact hown number rfl

/-- A piece is written to the file of the draft, wherever that has been renamed to. -/
theorem append (h : dir.Tidy base root d) (hl : Lends base draft) (piece : Bytes) (now : Time) :
    dir.Tidy base root (appendDraft draft piece now d).2 ∧
      Lends base (appendDraft draft piece now d).1 := by
  refine ⟨?_, hl⟩
  unfold appendDraft
  cases hf : draft.file with
  | none => exact h
  | some file =>
    show dir.Tidy base root (d.overwrite file.number draft.bytes.length piece now)
    unfold Disk.overwrite
    split
    · exact h
    · exact h.mapFile (hl file hf) _ now

/-- Whatever stands in the place of the draft by now is renamed. -/
theorem finishSave (h : dir.Tidy base root d) (hb : dir.Settled base) (key : Key) (draft : Draft) :
    dir.Tidy base root (dir.finishSave key draft d).2 := by
  unfold Directory.finishSave
  cases hpath : dir.path key with
  | error e => exact h
  | ok target =>
    obtain ⟨rfl, hplain⟩ := path_eq_ok hpath
    cases draft.file with
    | none => exact h
    | some file =>
      have hinstalled := h.install hb (dir.isName_draft file.serial) hplain
        (fun e => StorageError.io key e.toIo) fun e => StorageError.io key e.toIo
      simp only [draftPath_eq]
      split
      · rename_i he
        rw [he] at hinstalled
        exact hinstalled.dropDraft file.serial
      · rename_i he
        rw [he] at hinstalled
        exact hinstalled

theorem abandonSave (h : dir.Tidy base root d) (draft : Draft) :
    dir.Tidy base root (dir.abandonSave draft d).2 := by
  unfold Directory.abandonSave
  cases draft.file with
  | none => exact h
  | some file => exact h.dropDraft file.serial

/-- A save that is not interrupted. -/
theorem save (h : dir.Tidy base root d) (hb : dir.Settled base) (key : Key) (content : Content)
    (now : Time) (serial : Nat) :
    dir.Tidy base root (dir.save key content now (d, serial)).2.1 := by
  obtain ⟨hstart, hlends⟩ := h.startSave key now serial
  unfold Directory.save
  rcases hs : dir.startSave key now (d, serial) with ⟨⟨e | draft, events⟩, d₁, count⟩
  · rw [hs] at hstart
    exact hstart
  · rw [hs] at hstart hlends
    obtain ⟨happend, -⟩ :=
      hstart.append (hlends draft rfl) (chunksOf content.producer.items).1.flatten now
    simp only
    cases (chunksOf content.producer.items).2.1 with
    | none => exact happend.finishSave hb key _
    | some cause => exact happend.abandonSave _

/-! ## Requests -/

theorem move (h : dir.Tidy base root d) (hb : dir.Settled base) (source destination : Key) :
    dir.Tidy base root (dir.move source destination d).2 := by
  unfold Directory.move
  cases hdestination : dir.path destination with
  | error e => exact h
  | ok target =>
    obtain ⟨rfl, hplain⟩ := path_eq_ok hdestination
    cases hfile : dir.file source d with
    | error e => exact h
    | ok file =>
      cases hsource : dir.path source with
      | error e => exact h
      | ok origin =>
        obtain ⟨rfl, -⟩ := path_eq_ok hsource
        obtain ⟨-, ha, others, other, hsegments, -⟩ := file_place h.rooted hfile
        have ho := hsegments ▸ ha.isName
        have hinstalled := h.install hb ho hplain
          (fun e => StorageError.io destination e.toIo) (failure source)
        simp only [hsegments]
        split
        · exact h
        · split
          · rename_i he
            rw [he] at hinstalled
            exact hinstalled
          · rename_i he
            rw [he] at hinstalled
            exact hinstalled.prune ho

theorem remove (h : dir.Tidy base root d) (key : Key) :
    dir.Tidy base root (dir.remove key d).2 := by
  unfold Directory.remove
  cases hfile : dir.file key d with
  | error e => exact h
  | ok file =>
    cases hpath : dir.path key with
    | error e => exact h
    | ok p =>
      obtain ⟨rfl, -⟩ := path_eq_ok hpath
      obtain ⟨-, ha, names, name, hnames, -⟩ := file_place h.rooted hfile
      rw [hnames] at ha ⊢
      simp only
      split
      · exact h
      · rename_i hremove
        exact (h.removeFile ha.isName hremove).prune ha.isName

/-- **Requests.** Every request leaves a tidy directory tidy, whatever keys it names. -/
theorem answer (h : dir.Tidy base root d) (hb : dir.Settled base) (r : Request) (now : Time)
    (serial : Nat) : dir.Tidy base root (dir.answer r now (d, serial)).2.1 := by
  cases r with
  | contains key | list key | value key | metadata key => exact h
  | save key content => exact h.save hb key content now serial
  | move source destination => exact h.move hb source destination
  | delete key => exact h.remove key

end Tidy

end Directory

end BlobStore
