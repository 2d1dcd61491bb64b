import BlobStore.Proofs.Disk.Growth

/-!
# Disks that look alike

Two disks look alike at some ways below a root if the same directories stand there, and files of the
same bytes. Their numbers and instants may differ, and so may what stands elsewhere below the root.
A call on a path along such ways does the same on both disks, which look alike afterwards.

## Main definitions

* `DiskEntry.shown`: an entry without what tells files of the same bytes apart
* `Disk.Alike`: disks that look alike at some ways
* `Disk.Agree`: calls that fail alike, or leave disks that look alike

## Main results

* `Disk.Alike.lookUp_cases`: both disks are looked up alike
* `Disk.Alike.makeDirectories`, `Disk.Alike.removeDirectory`: directories
* `Disk.Alike.removeFile`, `Disk.Alike.renameFile`: files
-/

namespace BlobStore

/-- An entry without what tells files of the same bytes apart. -/
def DiskEntry.shown : DiskEntry → DiskEntry
  | .file value => .file ⟨0, value.bytes, ⟨0⟩, ⟨0⟩⟩
  | .directory => .directory
  | .link target => .link target

theorem DiskEntry.directory_iff_of_shown {entry entry' : DiskEntry}
    (h : entry.shown = entry'.shown) : entry = .directory ↔ entry' = .directory := by
  cases entry <;> cases entry' <;> simp_all [shown]

namespace Disk

/-- Disks that look alike at some ways below a root. -/
def Alike (d d' : Disk) (root : Place) (seen : List FileName → Prop) : Prop :=
  ∀ way, seen way →
    (d.at? (root ++ way)).map DiskEntry.shown = (d'.at? (root ++ way)).map DiskEntry.shown

/-- Calls that fail alike, or leave disks that look alike. -/
def Agree (root : Place) (seen : List FileName → Prop) :
    Except DiskError Disk → Except DiskError Disk → Prop
  | .ok d, .ok d' => d.Alike d' root seen
  | .error e, .error e' => e = e'
  | .ok _, .error _ | .error _, .ok _ => False

variable {d d' base : Disk} {p : DiskPath} {root : Place} {seen : List FileName → Prop}
  {names : List FileName} {name : FileName}

namespace Alike

theorem refl (d : Disk) (root : Place) (seen : List FileName → Prop) : d.Alike d root seen :=
  fun _ _ => rfl

theorem symm (h : d.Alike d' root seen) : d'.Alike d root seen := fun way hw => (h way hw).symm

theorem trans {d'' : Disk} (h : d.Alike d' root seen) (h' : d'.Alike d'' root seen) :
    d.Alike d'' root seen := fun way hw => (h way hw).trans (h' way hw)

theorem isSome_eq (h : d.Alike d' root seen) {way : List FileName} (hw : seen way) :
    (d.at? (root ++ way)).isSome = (d'.at? (root ++ way)).isSome := by
  rw [← Option.isSome_map, h way hw, Option.isSome_map]

/-- Files of the same bytes stand on both disks. -/
theorem file (h : d.Alike d' root seen) {way : List FileName} (hw : seen way) {file : DiskFile}
    (hat : d.at? (root ++ way) = some (.file file)) :
    ∃ file', d'.at? (root ++ way) = some (.file file') ∧ file.bytes = file'.bytes := by
  have he := h way hw
  rcases hat' : d'.at? (root ++ way) with _ | ⟨_ | file' | target⟩
  · simp [hat, hat'] at he
  · simp [hat, hat', DiskEntry.shown] at he
  · exact ⟨file', rfl, by simpa [hat, hat', DiskEntry.shown] using he⟩
  · simp [hat, hat', DiskEntry.shown] at he

/-! ## Look-ups -/

/-- Both disks are looked up alike: the look-ups fail with the same error, or nothing is found, or a
directory, or files of the same bytes. -/
theorem lookUp_cases (h : d.Alike d' root seen) (hr : d.Rooted base p root)
    (hv : ∀ front, front ≠ [] → front <+: names ++ [name] → seen front) :
    (∃ e, d.lookUp p root names name = .error e ∧ d'.lookUp p root names name = .error e) ∨
      (d.lookUp p root names name = .ok none ∧ d'.lookUp p root names name = .ok none) ∨
      (d.lookUp p root names name = .ok (some .directory) ∧
        d'.lookUp p root names name = .ok (some .directory)) ∨
      ∃ file file', d.lookUp p root names name = .ok (some (.file file)) ∧
        d'.lookUp p root names name = .ok (some (.file file')) ∧ file.bytes = file'.bytes := by
  have hcongr := lookUp_congr (p := p) (fun _ _ => DiskEntry.directory_iff_of_shown)
    fun front hne hp => h front (hv front hne hp)
  rcases hl : d.lookUp p root names name with e | found
  · rcases hl' : d'.lookUp p root names name with e' | found'
    · rw [hl, hl'] at hcongr
      cases hcongr
      exact Or.inl ⟨e, rfl, rfl⟩
    · simp [hl, hl', Except.map] at hcongr
  · rcases hl' : d'.lookUp p root names name with e' | found'
    · simp [hl, hl', Except.map] at hcongr
    · have hlink : ∀ target, found ≠ some (.link target) := by
        intro target
        rw [(lookUp_eq_ok hl).1]
        exact hr.linkless _ target
      rw [hl, hl'] at hcongr
      rcases found with _ | ⟨_ | file | target⟩ <;> rcases found' with _ | ⟨_ | file' | target'⟩ <;>
        simp_all [Except.map, DiskEntry.shown]

/-! ## One change -/

theorem put (h : d.Alike d' root seen) (hne : names ≠ []) {entry entry' : DiskEntry}
    (he : entry.shown = entry'.shown) :
    (d.put (root ++ names) entry).Alike (d'.put (root ++ names) entry') root seen := by
  intro way hw
  rw [at?_put (by simp [hne]), at?_put (by simp [hne])]
  split
  · simp [he]
  · exact h way hw

theorem erase (h : d.Alike d' root seen) (hne : names ≠ []) :
    (d.erase (root ++ names)).Alike (d'.erase (root ++ names)) root seen := by
  intro way hw
  rw [at?_erase (by simp [hne]), at?_erase (by simp [hne])]
  split
  · rfl
  · exact h way hw

/-- What is erased where nothing is seen does not show. -/
theorem erase_unseen (h : d.Alike d' root seen) (hne : names ≠ []) (hv : ¬ seen names) :
    (d.erase (root ++ names)).Alike d' root seen := by
  intro way hw
  rw [at?_erase (by simp [hne]), if_neg, h way hw]
  intro he
  exact hv (List.append_cancel_left he ▸ hw)

/-! ## Calls -/

variable (h : d.Alike d' root seen) (hr : d.Rooted base p root) (hr' : d'.Rooted base p root)
  (hn : ∀ other ∈ names ++ [name], DiskPath.IsName other)
  (hv : ∀ front, front ≠ [] → front <+: names ++ [name] → seen front)

include h hr hr' hn hv

theorem stat :
    (d.stat (p.descend (names ++ [name]))).map DiskEntry.shown =
      (d'.stat (p.descend (names ++ [name]))).map DiskEntry.shown := by
  rw [hr.stat_eq hn, hr'.stat_eq hn]
  rcases h.lookUp_cases hr hv with
    ⟨e, hl, hl'⟩ | ⟨hl, hl'⟩ | ⟨hl, hl'⟩ | ⟨file, file', hl, hl', hb⟩
  · rw [hl, hl']
  · rw [hl, hl']
  · rw [hl, hl']
  · rw [hl, hl']
    simp [Except.map, DiskEntry.shown, hb]

theorem ensureDirectory :
    Agree root seen (d.ensureDirectory (p.descend (names ++ [name])))
      (d'.ensureDirectory (p.descend (names ++ [name]))) := by
  rw [hr.ensureDirectory_eq hn, hr'.ensureDirectory_eq hn]
  rcases h.lookUp_cases hr hv with
    ⟨e, hl, hl'⟩ | ⟨hl, hl'⟩ | ⟨hl, hl'⟩ | ⟨file, file', hl, hl', -⟩
  · rw [hl, hl']
    rfl
  · rw [hl, hl']
    exact h.put (by simp) rfl
  · rw [hl, hl']
    exact h
  · rw [hl, hl']
    rfl

theorem removeFile :
    Agree root seen (d.removeFile (p.descend (names ++ [name])))
      (d'.removeFile (p.descend (names ++ [name]))) := by
  rw [hr.removeFile_eq hn, hr'.removeFile_eq hn]
  rcases h.lookUp_cases hr hv with
    ⟨e, hl, hl'⟩ | ⟨hl, hl'⟩ | ⟨hl, hl'⟩ | ⟨file, file', hl, hl', -⟩
  · rw [hl, hl']
    rfl
  · rw [hl, hl']
    rfl
  · rw [hl, hl']
    rfl
  · rw [hl, hl']
    exact h.erase (by simp)

theorem removeDirectory (hs : d.Sound) (hs' : d'.Sound)
    (hbelow : ∀ way, seen (names ++ [name] ++ way)) :
    Agree root seen (d.removeDirectory (p.descend (names ++ [name])))
      (d'.removeDirectory (p.descend (names ++ [name]))) := by
  have hempty : (d.below (root ++ (names ++ [name]))).isEmpty =
      (d'.below (root ++ (names ++ [name]))).isEmpty := by
    rw [Bool.eq_iff_iff, hs.below_isEmpty, hs'.below_isEmpty]
    refine forall_congr' fun way => imp_congr_right fun _ => ?_
    have he := h.isSome_eq (hbelow way)
    rw [List.append_assoc root, ← Option.not_isSome_iff_eq_none, he,
      Option.not_isSome_iff_eq_none]
  rw [hr.removeDirectory_eq hn, hr'.removeDirectory_eq hn, hempty]
  rcases h.lookUp_cases hr hv with
    ⟨e, hl, hl'⟩ | ⟨hl, hl'⟩ | ⟨hl, hl'⟩ | ⟨file, file', hl, hl', -⟩
  · rw [hl, hl']
    rfl
  · rw [hl, hl']
    rfl
  · rw [hl, hl']
    dsimp only
    split
    · exact h.erase (by simp)
    · rfl
  · rw [hl, hl']
    rfl

omit hn in
/-- A file is given the same name on both disks, if its old name does not tell them apart. -/
theorem renameFile {others others' : List FileName} {other other' : FileName}
    {file file' : DiskFile}
    (ha : Admits p (others ++ [other])) (ha' : Admits p (others' ++ [other']))
    (hat : d.at? (root ++ (others ++ [other])) = some (.file file))
    (hat' : d'.at? (root ++ (others' ++ [other'])) = some (.file file'))
    (hbytes : file.bytes = file'.bytes)
    (hgone : (d.erase (root ++ (others ++ [other]))).Alike
      (d'.erase (root ++ (others' ++ [other']))) root seen)
    (hn : ∀ other ∈ names ++ [name], DiskPath.IsName other)
    (hne : others ++ [other] ≠ names ++ [name]) (hne' : others' ++ [other'] ≠ names ++ [name])
    (hbefore : names ++ [name] <+: others ↔ names ++ [name] <+: others') :
    Agree root seen
      (d.renameFile (p.descend (others ++ [other])) (p.descend (names ++ [name])))
      (d'.renameFile (p.descend (others' ++ [other'])) (p.descend (names ++ [name]))) := by
  have hshown : (DiskEntry.file file).shown = (DiskEntry.file file').shown := by
    simp [DiskEntry.shown, hbytes]
  rw [hr.renameFile_eq ha hat hn hne, hr'.renameFile_eq ha' hat' hn hne']
  rcases h.lookUp_cases hr hv with
    ⟨e, hl, hl'⟩ | ⟨hl, hl'⟩ | ⟨hl, hl'⟩ | ⟨file, file', hl, hl', -⟩
  · rw [hl, hl']
    rfl
  · rw [hl, hl']
    exact hgone.put (by simp) hshown
  · rw [hl, hl']
    simp only [Agree, hbefore]
  · rw [hl, hl']
    exact hgone.put (by simp) hshown

end Alike

/-! ## Directories made along names -/

theorem Agree.cases {r r' : Except DiskError Disk} (h : Agree root seen r r') :
    (∃ e, r = .error e ∧ r' = .error e) ∨
      ∃ d d', r = .ok d ∧ r' = .ok d' ∧ d.Alike d' root seen := by
  cases r with
  | error e =>
    cases r' with
    | error e' => exact Or.inl ⟨e, rfl, congrArg Except.error (Eq.symm h)⟩
    | ok d' => exact h.elim
  | ok d =>
    cases r' with
    | error e' => exact h.elim
    | ok d' => exact Or.inr ⟨d, d', rfl, rfl, h⟩

/-- Directories along names are made on both disks, or on neither. -/
theorem Alike.makeDirectories (h : d.Alike d' root seen) (hr : d.Rooted base p root)
    (hr' : d'.Rooted base p root) (hs : d.Sound) (hs' : d'.Sound)
    (hn : ∀ name ∈ names, DiskPath.IsName name)
    (hv : ∀ front, front ≠ [] → front <+: names → seen front) :
    (d.makeDirectories (p.descend names).bare).1 =
        (d'.makeDirectories (p.descend names).bare).1 ∧
      (d.makeDirectories (p.descend names).bare).2.Alike
        (d'.makeDirectories (p.descend names).bare).2 root seen := by
  induction names using List.reverseRecOn with
  | nil =>
    rw [DiskPath.descend_nil, hr.leads.makeDirectories, hr'.leads.makeDirectories]
    exact ⟨rfl, h⟩
  | append_singleton names name ih =>
    have hname := hn name (by simp)
    have hfirst := fun other ho => hn other (List.mem_append_left _ ho)
    rcases (h.ensureDirectory hr hr' hn hv).cases with ⟨e, he, he'⟩ | ⟨d₁, d₁', he, he', h₁⟩
    · by_cases hentry : e = .noEntry
      · subst hentry
        rw [makeDirectories_of_noEntry hname he, makeDirectories_of_noEntry hname he']
        have hmade := hr.makeDirectories_made hs hfirst
        have hmade' := hr'.makeDirectories_made hs' hfirst
        obtain ⟨hresult, hafter⟩ :=
          ih hfirst fun front hne hp => hv front hne (hp.trans (List.prefix_append _ _))
        generalize d.makeDirectories (p.descend names).bare = outcome at hmade hresult hafter ⊢
        generalize d'.makeDirectories (p.descend names).bare = outcome' at hmade' hresult hafter ⊢
        obtain ⟨result, d₁⟩ := outcome
        obtain ⟨result', d₁'⟩ := outcome'
        dsimp only at hresult hafter
        subst hresult
        cases result with
        | error e => exact ⟨rfl, hafter⟩
        | ok =>
          rcases (hafter.ensureDirectory hmade.rooted hmade'.rooted hn hv).cases with
            ⟨e, he, he'⟩ | ⟨d₂, d₂', he, he', h₂⟩
          · simp only [he, he']
            exact ⟨trivial, hafter⟩
          · simp only [he, he']
            exact ⟨trivial, h₂⟩
      · rw [makeDirectories_of_error hname he hentry, makeDirectories_of_error hname he' hentry]
        exact ⟨rfl, h⟩
    · rw [makeDirectories_of_ok hname he, makeDirectories_of_ok hname he']
      exact ⟨rfl, h₁⟩

end Disk

end BlobStore
