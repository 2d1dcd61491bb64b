import BlobStore.Proofs.Disk.Lookup

/-!
# The path above a directory

On a disk where everything stands in a directory, so does the directory that a path leads to, and
the path above leads there. A directory is not replaced by a file, so the path to it is no place for
one, unless it is a link that leads to the directory.

## Main definitions

* `Disk.Whole`: everything on a disk stands in a directory
* `Disk.Unlinked`: a path without a link at its end

## Main results

* `Disk.Rooted.makeParent`: the directories above the root of a tree are there
* `Disk.Leads.renameFile_root`: no file in a tree is given the name of its root
-/

namespace BlobStore

namespace Disk

variable {d base : Disk} {p : DiskPath} {root here there place : Place} {names : List FileName}
  {name : FileName}

/-! ## Disks where everything stands in a directory -/

/-- Everything on a disk stands in a directory, and relative paths start from one. -/
structure Whole (d : Disk) : Prop where
  nested : ∀ e ∈ d.entries.entries, d.at? e.1.dropLast = some .directory
  current : d.at? d.current = some .directory

instance decidableWhole (d : Disk) : Decidable d.Whole :=
  decidable_of_iff
    ((∀ e ∈ d.entries.entries, d.at? e.1.dropLast = some .directory) ∧
      d.at? d.current = some .directory)
    ⟨fun ⟨hn, hc⟩ => ⟨hn, hc⟩, fun ⟨hn, hc⟩ => ⟨hn, hc⟩⟩

namespace Whole

theorem dropLast (h : d.Whole) (hat : (d.at? place).isSome) :
    d.at? place.dropLast = some .directory := by
  cases place with
  | nil => rfl
  | cons first rest =>
    obtain ⟨entry, he⟩ := Option.isSome_iff_exists.mp hat
    exact h.nested _ (OrderedMap.mem_entries_of_get? he)

theorem start (h : d.Whole) (p : DiskPath) : d.at? (d.start p) = some .directory := by
  unfold Disk.start
  split
  · rfl
  · exact h.current

/-- A walk goes on from a directory. -/
theorem turn (h : d.Whole) (hd : d.at? here = some .directory) {n m : Nat} {piece : FileName}
    {detour : List FileName} (ht : d.turn n here piece = .onward m there detour) :
    d.at? there = some .directory := by
  unfold Disk.turn at ht
  split_ifs at ht
  · cases ht
    exact hd
  · cases ht
    exact h.dropLast (by rw [hd]; rfl)
  · split at ht
    · cases ht
    · rename_i hat
      cases ht
      exact hat
    · cases ht
    · split at ht
      · cases ht
      · cases ht
        split
        · rfl
        · exact hd

/-- The way to a directory ends at one. -/
theorem strides (h : d.Whole) {n : Nat} {pieces : List FileName}
    (hw : d.strides .entry n here (pieces ++ [.text "."]) = .ok there)
    (hd : d.at? here = some .directory) : d.at? there = some .directory := by
  induction n, here, pieces using walk_induction d with
  | nil n here =>
    rw [List.nil_append, strides_dot, strides_nil] at hw
    cases hw
    exact hd
  | cons n here piece rest ih =>
    rw [List.cons_append, strides_cons] at hw
    cases ht : d.turn n here piece with
    | onward m next detour =>
      rw [ht] at hw
      simp only [← List.append_assoc] at hw
      exact ih m next detour ht hw (h.turn hd ht)
    | file next => simp [ht] at hw
    | absent next => simp [ht] at hw
    | refused e => simp [ht] at hw

end Whole

/-! ## The path above -/

/-- The path above one that leads to a directory leads to a directory. -/
theorem Leads.parent (h : d.Leads p place) (hd : d.Whole) (hp : p.parent.parts ≠ []) :
    ∃ above, d.Leads p.parent above := by
  have habove := DiskPath.parent_prefix_self hp
  obtain ⟨front, piece, hpieces, hi⟩ := DiskPath.parent_concat hp
  have hne : piece ≠ .text "" := by
    rintro rfl
    simp [DiskPath.isIdle] at hi
  have hs : d.start p.parent = d.start p := by
    rw [start, start, DiskPath.absolute_of_prefix habove hpieces hi]
  obtain ⟨more, hmore⟩ : p.parent.passes <+: p.passes := habove.filter _
  have hway := h.way
  rw [← hmore, List.append_assoc] at hway
  cases hw : d.strides .entry linkLimit (d.start p.parent) (p.parent.passes ++ [.text "."]) with
  | error e =>
    rw [← hs, strides_append_error hw (by simp)] at hway
    cases hway
  | ok above =>
    refine ⟨above, refuse_of_prefix h.accepted habove ?_, hw, hd.strides hw (hd.start _)⟩
    simp [DiskPath.isEmpty, hpieces, hne]

/-- The directories above the root of a tree are not made. -/
theorem Rooted.makeParent (h : d.Rooted base p root) (hb : base.Whole) :
    d.makeDirectories p.parent = (.ok (), d) := by
  by_cases hp : p.parent.parts = []
  · unfold Disk.makeDirectories DiskPath.ancestry
    rw [hp]
    rfl
  · obtain ⟨above, habove⟩ := h.led.parent hb hp
    rw [← DiskPath.bare_parent hp, (habove.mono h.includes h.current).makeDirectories]

/-! ## No file in place of a directory -/

/-- A path leads to a directory without a link at its end. -/
def Unlinked (d : Disk) (p : DiskPath) : Prop :=
  ∀ here name target, d.approach p = .ok (here, some name) →
    d.at? (here ++ [name]) ≠ some (.link target)

/-- The last name of a path to a directory is the name of that directory. -/
theorem Leads.approach_eq_some (h : d.Leads p place) (hl : d.Unlinked p)
    (ha : d.approach p = .ok (here, some name)) :
    here ++ [name] = place ∧ isTooLong name = false := by
  obtain ⟨front, hp, hdot, hup, hs⟩ := Disk.approach_eq_some ha
  obtain ⟨m, hm⟩ := strides_append hs
  have hway := h.way
  rw [hp, List.append_assoc, hm, List.singleton_append, strides_cons] at hway
  unfold turn at hway
  rw [if_neg hdot, if_neg hup] at hway
  by_cases hlong : isTooLong name
  · simp [hlong] at hway
  · rw [if_neg hlong] at hway
    rcases hat : d.at? (here ++ [name]) with _ | ⟨_ | file | target⟩
    · simp [hat] at hway
    · rw [hat] at hway
      simp only [List.nil_append, strides_dot, strides_nil] at hway
      exact ⟨Except.ok.inj hway, by simpa using hlong⟩
    · simp [hat] at hway
    · exact absurd hat (hl here name target ha)

/-- The directory that the last step of the path to a directory starts from is found. -/
theorem Leads.approach_ok (h : d.Leads p place) : ∃ found, d.approach p = .ok found := by
  unfold Disk.approach
  rw [h.accepted]
  obtain ⟨last, hlast⟩ := List.dropLast_prefix p.passes
  cases hw : d.strides .entry linkLimit (d.start p) (p.passes.dropLast ++ [.text "."]) with
  | error e =>
    have hway := h.way
    rw [← hlast, List.append_assoc, strides_append_error hw (by simp)] at hway
    cases hway
  | ok here =>
    simp only
    split <;> exact ⟨_, rfl⟩

/-- What is done in a tree does not change how its root is found. -/
theorem Rooted.approach_root (h : d.Rooted base p root) : d.approach p = base.approach p := by
  obtain ⟨found, hfound⟩ := h.led.approach_ok
  have hs : d.start p = base.start p := by rw [start, start, h.current]
  rw [hfound]
  unfold Disk.approach at hfound ⊢
  rw [h.led.accepted] at hfound ⊢
  cases hw : base.strides .entry linkLimit (base.start p) (p.passes.dropLast ++ [.text "."]) with
  | error e => simp [hw] at hfound
  | ok here =>
    rw [hs, h.includes.strides hw]
    rw [hw] at hfound
    exact hfound

/-- No file of a tree is given the name of its root. -/
theorem Leads.renameFile_root (h : base.Leads p root) (hl : base.Unlinked p) :
    ∃ e, ∀ (d : Disk) (names : List FileName) (name : FileName) (file : DiskFile),
      d.Rooted base p root → Admits p (names ++ [name]) →
        d.at? (root ++ (names ++ [name])) = some (.file file) →
          d.renameFile (p.descend (names ++ [name])) p = .error e := by
  obtain ⟨⟨here, last?⟩, hfound⟩ := h.approach_ok
  cases last? with
  | none =>
    refine ⟨.busy, ?_⟩
    intro d names name file hr ha hat
    have habove := hr.nested names name (by rw [hat]; rfl)
    unfold Disk.renameFile
    rw [(hr.locate ha habove).1, hr.approach_root, hfound]
  | some last =>
    obtain ⟨hroot, hshort⟩ := h.approach_eq_some hl hfound
    refine ⟨if p.closed then .notDirectory else .notEmpty, ?_⟩
    intro d names name file hr ha hat
    have habove := hr.nested names name (by rw [hat]; rfl)
    have hopen : (p.descend (names ++ [name])).closed = false :=
      DiskPath.closed_concat names (ha.isName name (by simp)).1
    have hbefore : (here ++ [last]).isPrefixOf (root ++ names) = true := by
      rw [hroot, List.isPrefixOf_iff_prefix]
      exact List.prefix_append _ _
    unfold Disk.renameFile
    rw [(hr.locate ha habove).1, hr.approach_root, hfound]
    simp only [List.append_assoc, hat, hshort, hopen]
    cases p.closed
    · simp [hbefore]
    · simp

end Disk

end BlobStore
