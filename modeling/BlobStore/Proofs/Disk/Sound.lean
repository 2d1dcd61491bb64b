import BlobStore.Disk.Change
import BlobStore.Proofs.Order

/-!
# Sound disks

The entries of a disk stand in order, and the numbers that its files have are used up. The empty
disk is sound, and every call leaves a sound disk sound, whether it succeeds or stops half way.

## Main definitions

* `Disk.Sound`: the entries stand in order, and the numbers of files are used up
* `Disk.Changed`: a disk with one place changed

## Main results

* `Disk.changed_put`, `Disk.changed_erase`: one place is changed, and nothing else
* `Disk.changed_rename`: a file is moved from one place to another
* `Disk.Sound.makeDirectories`, `Disk.Sound.removeDirectories`: a disk stays sound
* `Disk.Sound.createFile`, `Disk.Sound.overwrite`, `Disk.Sound.removeFile`,
  `Disk.Sound.renameFile`: likewise
-/

namespace BlobStore

namespace Disk

variable {d d' : Disk} {p : DiskPath} {root place : Place} {entry : DiskEntry}

/-- The entries stand in order, the top is none of them, and every file has a number below the
first that is still unused. -/
structure Sound (d : Disk) : Prop where
  sorted : d.entries.Sorted
  top : d.entries.get? [] = none
  numbered : ∀ place file, d.at? place = some (.file file) → file.number < d.fresh

theorem sound_empty : ({} : Disk).Sound where
  sorted := OrderedMap.sorted_empty
  top := rfl
  numbered place file h := by
    cases place <;> cases h

theorem at?_of_ne_nil (h : place ≠ []) : d.at? place = d.entries.get? place := by
  cases place with
  | nil => exact absurd rfl h
  | cons name rest => rfl

theorem Sound.file_iff (h : d.Sound) {file : DiskFile} :
    (place, .file file) ∈ d.entries.entries ↔ d.at? place = some (.file file) := by
  rw [h.sorted.mem_entries_iff]
  cases place with
  | nil => simp [at?, h.top]
  | cons name rest => rfl

theorem sound_iff :
    d.Sound ↔ d.entries.Sorted ∧ d.entries.get? [] = none ∧
      ∀ stands ∈ d.entries.entries, ∀ file, stands.2 = .file file → file.number < d.fresh := by
  constructor
  · intro h
    exact ⟨h.sorted, h.top, fun stands hm file hf =>
      h.numbered stands.1 file (h.file_iff.mp (hf ▸ hm))⟩
  · rintro ⟨hsorted, htop, hnumbered⟩
    refine ⟨hsorted, htop, fun place file hat => ?_⟩
    have hne : place ≠ [] := by
      rintro rfl
      cases hat
    rw [at?_of_ne_nil hne] at hat
    exact hnumbered _ (OrderedMap.mem_entries_of_get? hat) file rfl

/-! ## One place -/

/-- A disk with one place changed. -/
structure Changed (d d' : Disk) (place : Place) (stands? : Option DiskEntry) : Prop where
  at? : ∀ other, d'.at? other = if place = other then stands? else d.at? other
  current : d'.current = d.current
  sound : d'.Sound

theorem at?_put (hp : place ≠ []) (entry : DiskEntry) (other : Place) :
    (d.put place entry).at? other = if place = other then some entry else d.at? other := by
  cases other with
  | nil => simp [at?, hp]
  | cons name rest => exact OrderedMap.get?_put d.entries place (name :: rest) entry

theorem at?_erase (hp : place ≠ []) (other : Place) :
    (d.erase place).at? other = if place = other then none else d.at? other := by
  cases other with
  | nil => simp [at?, hp]
  | cons name rest => exact OrderedMap.get?_erase d.entries place (name :: rest)

theorem changed_put (h : d.Sound) (hp : place ≠ [])
    (hn : ∀ file, entry = .file file → file.number < d.fresh) :
    d.Changed (d.put place entry) place (some entry) where
  at? := at?_put hp entry
  current := rfl
  sound := by
    refine ⟨h.sorted.put place entry, ?_, ?_⟩
    · show (d.entries.put place entry).get? [] = none
      rw [OrderedMap.get?_put, if_neg hp, h.top]
    · intro other file hf
      rw [at?_put hp] at hf
      split at hf
      · exact hn file (Option.some.inj hf)
      · exact h.numbered other file hf

theorem changed_erase (h : d.Sound) (hp : place ≠ []) :
    d.Changed (d.erase place) place none where
  at? := at?_erase hp
  current := rfl
  sound := by
    refine ⟨h.sorted.erase place, ?_, ?_⟩
    · show (d.entries.erase place).get? [] = none
      rw [OrderedMap.get?_erase, if_neg hp, h.top]
    · intro other file hf
      rw [at?_erase hp] at hf
      split at hf
      · cases hf
      · exact h.numbered other file hf

/-- A file moved from one place to another keeps its number. -/
theorem changed_rename (h : d.Sound) (hp : place ≠ []) (other : Place) (ho : other ≠ [])
    {file : DiskFile} (hat : d.at? place = some (.file file)) :
    d.Changed (d.erase place) place none ∧
      (d.erase place).Changed ((d.erase place).put other (.file file)) other
        (some (.file file)) := by
  have hgone : d.Changed (d.erase place) place none := changed_erase h hp
  refine ⟨hgone, changed_put hgone.sound ho fun file' he => ?_⟩
  cases he
  exact h.numbered place file hat

section

variable {way other : List FileName} {stands? : Option DiskEntry}

theorem Changed.here (hc : d.Changed d' place stands?) : d'.at? place = stands? := by
  rw [hc.at?, if_pos rfl]

theorem Changed.elsewhere (hc : d.Changed d' (root ++ way) stands?) (hne : other ≠ way) :
    d'.at? (root ++ other) = d.at? (root ++ other) := by
  rw [hc.at?, if_neg]
  exact fun he => hne (List.append_cancel_left he).symm

end

/-- A new file uses the next number up. -/
theorem Sound.enroll (h : d.Sound) (hp : place ≠ []) {file : DiskFile}
    (hn : file.number = d.fresh) :
    ({ d.put place (.file file) with fresh := d.fresh + 1 } : Disk).Sound := by
  refine ⟨h.sorted.put place _, ?_, ?_⟩
  · show (d.entries.put place _).get? [] = none
    rw [OrderedMap.get?_put, if_neg hp, h.top]
  · intro other file' hf
    show file'.number < d.fresh + 1
    have hat : (d.put place (.file file)).at? other = some (.file file') := hf
    rw [at?_put hp] at hat
    split at hat
    · cases hat
      omega
    · have := h.numbered other file' hat
      omega

namespace Sound

/-! ## Directories -/

/-- What is listed below a place is what stands there. -/
theorem mem_below (h : d.Sound) {way : Place} :
    (way, entry) ∈ d.below place ↔ way ≠ [] ∧ d.at? (place ++ way) = some entry := by
  unfold below
  simp only [List.mem_filterMap, Prod.exists, Option.ite_none_right_eq_some, Option.some.injEq,
    Prod.mk.injEq, Bool.and_eq_true, List.isPrefixOf_iff_prefix, decide_eq_true_eq]
  constructor
  · rintro ⟨other, entry', hm, ⟨⟨more, rfl⟩, hlen⟩, rfl, rfl⟩
    have hne : more ≠ [] := by
      rintro rfl
      simp at hlen
    rw [List.drop_left]
    refine ⟨hne, ?_⟩
    rw [at?_of_ne_nil (by simp [hne])]
    exact h.sorted.mem_entries_iff.mp hm
  · rintro ⟨hne, hat⟩
    rw [at?_of_ne_nil (by simp [hne])] at hat
    refine ⟨place ++ way, entry, h.sorted.mem_entries_iff.mpr hat, ⟨List.prefix_append _ _, ?_⟩, ?_⟩
    · simpa using List.length_pos_iff.mpr hne
    · simp

/-- One thing stands at each place below. -/
theorem below_pairwise (h : d.Sound) (place : Place) :
    (d.below place).Pairwise fun a b => a.1 ≠ b.1 := by
  have hentries : d.entries.entries.Pairwise fun a b => a.1 ≠ b.1 := by
    have hkeys := h.sorted
    unfold OrderedMap.Sorted OrderedMap.keys at hkeys
    exact (List.pairwise_map.mp hkeys).imp fun hlt => ne_of_lt hlt
  unfold below
  apply List.pairwise_filterMap.mpr
  apply hentries.imp
  intro a b hne found hf found' hf' he
  simp only [Option.ite_none_right_eq_some, Option.some.injEq, Bool.and_eq_true,
    List.isPrefixOf_iff_prefix, decide_eq_true_eq] at hf hf'
  obtain ⟨⟨⟨way, ha⟩, -⟩, rfl⟩ := hf
  obtain ⟨⟨⟨way', hb⟩, -⟩, rfl⟩ := hf'
  simp only [← ha, ← hb, List.drop_left] at he
  exact hne (by rw [← ha, ← hb, he])

/-- What is read of a directory is what stands in it. -/
theorem mem_entriesIn (h : d.Sound) {name : FileName} :
    (name, entry) ∈ d.entriesIn place ↔ d.at? (place ++ [name]) = some entry := by
  unfold entriesIn
  rw [List.mem_filterMap]
  constructor
  · rintro ⟨⟨way, other⟩, hm, he⟩
    rcases way with _ | ⟨first, _ | ⟨next, rest⟩⟩ <;> cases he
    exact (h.mem_below.mp hm).2
  · intro hat
    exact ⟨([name], entry), h.mem_below.mpr ⟨by simp, hat⟩, rfl⟩

theorem nodup_entriesIn (h : d.Sound) (place : Place) :
    ((d.entriesIn place).map (·.1)).Nodup := by
  unfold entriesIn
  apply List.pairwise_map.mpr
  apply List.pairwise_filterMap.mpr
  apply (h.below_pairwise place).imp
  rintro ⟨way, entry⟩ ⟨way', entry'⟩ hne found hf found' hf' he
  rcases way with _ | ⟨first, _ | ⟨next, rest⟩⟩ <;> cases hf
  rcases way' with _ | ⟨first', _ | ⟨next', rest'⟩⟩ <;> cases hf'
  exact hne (congrArg (fun name => [name]) he)

theorem below_isEmpty (h : d.Sound) :
    (d.below place).isEmpty ↔ ∀ way, way ≠ [] → d.at? (place ++ way) = none := by
  rw [List.isEmpty_iff, List.eq_nil_iff_forall_not_mem]
  constructor
  · intro hnone way hne
    by_contra hsome
    obtain ⟨entry, he⟩ := Option.ne_none_iff_exists'.mp hsome
    exact hnone (way, entry) (h.mem_below.mpr ⟨hne, he⟩)
  · rintro hnone ⟨way, entry⟩ hm
    obtain ⟨hne, he⟩ := h.mem_below.mp hm
    rw [hnone way hne] at he
    cases he

theorem makeDirectory (h : d.Sound) (he : d.makeDirectory p = .ok d') : d'.Sound := by
  unfold Disk.makeDirectory at he
  split at he
  · cases he
  · cases he
  · split at he
    · cases he
    · cases he
      exact (changed_put h (by simp) (by simp)).sound

theorem ensureDirectory (h : d.Sound) (he : d.ensureDirectory p = .ok d') : d'.Sound := by
  unfold Disk.ensureDirectory at he
  split at he
  · rename_i made hmake
    cases he
    exact h.makeDirectory hmake
  · split at he
    · cases he
      exact h
    · cases he

theorem makeFirst (h : d.Sound) (paths : List DiskPath) : (d.makeFirst paths).2.Sound := by
  induction paths with
  | nil => exact h
  | cons p above ih =>
    unfold Disk.makeFirst
    split
    · rename_i d' he
      exact h.ensureDirectory he
    · split
      · rename_i d' hmake
        rw [hmake] at ih
        exact ih
      · rename_i d' hmake
        rw [hmake] at ih
        split
        · rename_i d'' he
          exact ih.ensureDirectory he
        · exact ih
    · exact h

theorem makeDirectories (h : d.Sound) (p : DiskPath) : (d.makeDirectories p).2.Sound :=
  h.makeFirst p.ancestry

theorem removeDirectory (h : d.Sound) (he : d.removeDirectory p = .ok d') : d'.Sound := by
  unfold Disk.removeDirectory at he
  split at he
  · cases he
  · cases he
  · simp only at he
    split at he
    · cases he
    · split at he
      · cases he
        exact (changed_erase h (by simp)).sound
      · cases he
    · cases he

theorem removeDirectories (h : d.Sound) (paths : List DiskPath) :
    (d.removeDirectories paths).Sound := by
  induction paths generalizing d with
  | nil => exact h
  | cons p rest ih =>
    unfold Disk.removeDirectories
    split
    · rename_i d' he
      exact ih (h.removeDirectory he)
    · exact h

/-! ## Files -/

theorem fileAt (h : d.Sound) {create : Bool} {now : Time} {file : DiskFile}
    (he : d.fileAt place create now = .ok (file, d')) : d'.Sound := by
  unfold Disk.fileAt at he
  split at he
  · cases he
    exact h
  · cases he
  · rename_i hat
    have hp : place ≠ [] := by
      rintro rfl
      cases hat
    split at he
    · cases he
      exact h.enroll hp rfl
    · cases he

theorem openFile (h : d.Sound) {now : Time} {file : DiskFile}
    (he : d.openFile p now = .ok (file, d')) : d'.Sound := by
  unfold Disk.openFile at he
  split at he
  · split at he
    · cases he
    · cases he
  · split at he
    · cases he
    · exact h.fileAt he

/-- What is found by a number stands on the disk, and not at the top. -/
theorem at?_of_find? (h : d.Sound) {number : Nat} {file : DiskFile}
    (hf : d.find? number = some (place, file)) :
    place ≠ [] ∧ d.at? place = some (.file file) ∧ file.number = number := by
  obtain ⟨⟨other, entry⟩, hm, he⟩ := List.exists_of_findSome?_eq_some hf
  cases entry with
  | directory => cases he
  | link target => cases he
  | file file' =>
    simp only [Option.ite_none_right_eq_some, Option.some.injEq, Prod.mk.injEq] at he
    obtain ⟨hnumber, rfl, rfl⟩ := he
    refine ⟨?_, h.file_iff.mp hm, hnumber⟩
    rintro rfl
    rw [h.sorted.mem_entries_iff, h.top] at hm
    cases hm

/-- A file that alone has its number is found by it. -/
theorem find? (h : d.Sound) {file : DiskFile} (hat : d.at? place = some (.file file))
    (hu : ∀ other file', d.at? other = some (.file file') → file'.number = file.number →
      other = place) : d.find? file.number = some (place, file) := by
  cases hf : d.find? file.number with
  | none =>
    have hnone := List.findSome?_eq_none_iff.mp hf _ (h.file_iff.mpr hat)
    simp at hnone
  | some found =>
    obtain ⟨other, file'⟩ := found
    obtain ⟨-, hat', hnumber⟩ := h.at?_of_find? hf
    obtain rfl := hu other file' hat' hnumber
    rw [hat] at hat'
    cases hat'
    rfl

/-- What a file holds is changed at its place. -/
theorem changed_mapFile (h : d.Sound) {file : DiskFile} (hat : d.at? place = some (.file file))
    (hu : ∀ other file', d.at? other = some (.file file') → file'.number = file.number →
      other = place) (hp : place ≠ []) (f : Bytes → Bytes) (now : Time) :
    d.Changed (d.mapFile file.number f now) place
      (some (.file { file with bytes := f file.bytes, written := now })) := by
  unfold Disk.mapFile
  rw [h.find? hat hu]
  apply changed_put h hp
  intro file' he
  cases he
  exact h.numbered place file hat

theorem mapFile (h : d.Sound) (number : Nat) (f : Bytes → Bytes) (now : Time) :
    (d.mapFile number f now).Sound := by
  unfold Disk.mapFile
  split
  · rename_i place file hf
    obtain ⟨hp, hat, -⟩ := h.at?_of_find? hf
    refine (changed_put h hp ?_).sound
    intro file' he
    cases he
    exact h.numbered place file hat
  · exact h

theorem overwrite (h : d.Sound) (number offset : Nat) (part : Bytes) (now : Time) :
    (d.overwrite number offset part now).Sound := by
  unfold Disk.overwrite
  split
  · exact h
  · exact h.mapFile number _ now

theorem createFile (h : d.Sound) {now : Time} {number : Nat}
    (he : d.createFile p now = .ok (number, d')) : d'.Sound := by
  unfold Disk.createFile at he
  split at he
  · cases he
  · rename_i file opened hopen
    cases he
    exact (h.openFile hopen).mapFile file.number _ now

theorem writeFile (h : d.Sound) {bytes : Bytes} {now : Time}
    (he : d.writeFile p bytes now = .ok d') : d'.Sound := by
  unfold Disk.writeFile at he
  split at he
  · cases he
  · rename_i number created hcreate
    cases he
    exact (h.createFile hcreate).overwrite number 0 bytes now

theorem removeFile (h : d.Sound) (he : d.removeFile p = .ok d') : d'.Sound := by
  unfold Disk.removeFile at he
  split at he
  · cases he
  · cases he
  · split at he
    · cases he
    · cases he
    · split at he
      · cases he
      · cases he
        exact (changed_erase h (by simp)).sound

theorem renameFile (h : d.Sound) {source target : DiskPath}
    (he : d.renameFile source target = .ok d') : d'.Sound := by
  unfold Disk.renameFile at he
  split at he
  · cases he
  · cases he
  · cases he
  · cases he
  · rename_i here name there other _ _
    simp only at he
    split at he
    · cases he
    · cases he
    · rename_i entry _ hat
      have herase : d.Changed (d.erase (here ++ [name])) (here ++ [name]) none :=
        changed_erase h (by simp)
      have hnumber : ∀ file, entry = .file file →
          file.number < (d.erase (here ++ [name])).fresh := by
        rintro file rfl
        exact h.numbered _ file hat
      split at he
      · cases he
      · split at he
        · cases he
        · split at he
          · cases he
          · split at he
            · cases he
              exact h
            · split at he
              · cases he
              · cases he
                exact (changed_put herase.sound (by simp) hnumber).sound

theorem makeLink (h : d.Sound) {target : DiskPath} (he : d.makeLink p target = .ok d') :
    d'.Sound := by
  unfold Disk.makeLink at he
  split at he
  · cases he
  · cases he
  · split at he
    · cases he
    · cases he
      exact (changed_put h (by simp) (by simp)).sound

end Sound

end Disk

end BlobStore
