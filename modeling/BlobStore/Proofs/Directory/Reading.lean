import BlobStore.Proofs.Directory.Path
import BlobStore.Proofs.Directory.Stored
import BlobStore.Proofs.Directory.Sweep
import BlobStore.Proofs.Disk.Lookup
import Mathlib.Data.List.Nodup

/-!
# What a directory reads

Of a key whose file a disk can have, the entry at its place is read: a file is its value, and with a
directory or nothing there it has none. A listing shows the files below the place of its scope, in
the order of their keys.

## Main definitions

* `Directory.Suits`: keys whose files a disk can have
* `Directory.listed`: the keys of the files below a place

## Main results

* `Directory.Suits.file_eq`, `Directory.Suits.contains_eq`, `Directory.Suits.list_eq`: what is read
* `Directory.listed_congr`: listings show alike where files stand
-/

namespace BlobStore

namespace Directory

/-- A key that does not lead to the drafts. -/
def IsShown (key : Key) : Prop := key.names.head? ≠ some draftsName

instance decidableIsShown (key : Key) : Decidable (IsShown key) :=
  inferInstanceAs (Decidable (_ ≠ _))

/-- A key whose segments can be names of files within the limits of a disk, and do not lead to the
drafts. -/
structure Suits (dir : Directory) (key : Key) : Prop where
  plain : ∀ name ∈ key.names, isPlainName name
  short : ∀ name ∈ key.names, Disk.isTooLong name = false
  accepted : Disk.refuse (dir.rootPath.descend key.names) = none
  shown : key.names.head? ≠ some draftsName

instance decidableSuits (dir : Directory) (key : Key) : Decidable (dir.Suits key) :=
  decidable_of_iff
    ((∀ name ∈ key.names, isPlainName name) ∧
      (∀ name ∈ key.names, Disk.isTooLong name = false) ∧
      Disk.refuse (dir.rootPath.descend key.names) = none ∧
      key.names.head? ≠ some draftsName)
    ⟨fun ⟨hp, hs, ha, hh⟩ => ⟨hp, hs, ha, hh⟩, fun ⟨hp, hs, ha, hh⟩ => ⟨hp, hs, ha, hh⟩⟩

variable {dir : Directory} {key scope : Key} {base d d' : Disk} {root place : Place}

theorem IsShown.visible (h : IsShown key) {front : List FileName} (hne : front ≠ [])
    (hp : front <+: key.names) : Visible front := by
  obtain ⟨more, hmore⟩ := hp
  refine ⟨hne, ?_⟩
  rw [IsShown, ← hmore, List.head?_append_of_ne_nil _ hne] at h
  exact h

/-- What a listing does not leave out stands where a value can be. -/
theorem IsShown.visible_append (h : IsShown scope) {way : List FileName} (hne : way ≠ [])
    (hhidden : isHidden scope way = false) : Visible (scope.names ++ way) := by
  unfold isHidden at hhidden
  cases hnames : scope.names with
  | cons name rest => exact ⟨by simp, by simpa [IsShown, hnames] using h⟩
  | nil =>
    obtain rfl : scope = Key.root := Key.names_inj.mp (hnames.trans Key.names_root.symm)
    exact ⟨by simpa using hne, by simpa [Key.isRoot, Key.root] using hhidden⟩

/-! ## Paths -/

namespace Suits

theorem path (h : dir.Suits key) : dir.path key = .ok (dir.rootPath.descend key.names) :=
  path_of_isPlain h.plain

theorem admits (h : dir.Suits key) : Disk.Admits dir.rootPath key.names where
  isName name hm := isName_of_isPlain (h.plain name hm)
  short := h.short
  accepted := h.accepted

theorem visible (h : dir.Suits key) (hne : key ≠ Key.root) : Visible key.names :=
  ⟨fun he => hne (Key.names_inj.mp he), h.shown⟩

end Suits

/-! ## Files -/

namespace Suits

/-- The value of a key is the file at its place. -/
theorem file_eq (hk : dir.Suits key) (hr : d.Rooted base dir.rootPath root) :
    dir.file key d =
      match d.at? (root ++ key.names) with
      | some (.file file) => .ok file
      | _ => .error (.notFound key) := by
  unfold Directory.file
  rw [hk.path]
  rcases hat : d.at? (root ++ key.names) with _ | ⟨_ | file | target⟩
  · obtain ⟨e, hstat, hmiss⟩ := hr.stat_missing hk.admits hat
    simp [hstat, hmiss]
  · simp [hr.stat hk.admits hat]
  · simp [hr.stat hk.admits hat]
  · exact absurd hat (hr.linkless _ target)

theorem contains_eq (hk : dir.Suits key) (hr : d.Rooted base dir.rootPath root) :
    dir.contains key d =
      match d.at? (root ++ key.names) with
      | some (.file _) => .ok true
      | _ => .ok false := by
  unfold Directory.contains
  rw [hk.path]
  rcases hat : d.at? (root ++ key.names) with _ | ⟨_ | file | target⟩
  · obtain ⟨e, hstat, hmiss⟩ := hr.stat_missing hk.admits hat
    simp [hstat, hmiss]
  · simp [hr.stat hk.admits hat]
  · simp [hr.stat hk.admits hat]
  · exact absurd hat (hr.linkless _ target)

end Suits

/-! ## Listings -/

/-- The ways from a place to the files below it. -/
def filesBelow (place : Place) (d : Disk) : List Place :=
  (d.below place).filterMap fun (way, entry) =>
    match entry with
    | .file _ => some way
    | _ => none

theorem mem_filesBelow (hs : d.Sound) {way : Place} :
    way ∈ filesBelow place d ↔ way ≠ [] ∧ ∃ file, d.at? (place ++ way) = some (.file file) := by
  unfold filesBelow
  rw [List.mem_filterMap]
  constructor
  · rintro ⟨⟨other, entry⟩, hm, he⟩
    obtain ⟨hne, hat⟩ := hs.mem_below.mp hm
    cases entry with
    | file file =>
      cases he
      exact ⟨hne, file, hat⟩
    | directory => cases he
    | link target => cases he
  · rintro ⟨hne, file, hat⟩
    exact ⟨(way, .file file), hs.mem_below.mpr ⟨hne, hat⟩, rfl⟩

/-- A way leads to one file at most. -/
theorem nodup_filesBelow (place : Place) (hs : d.Sound) : (filesBelow place d).Nodup := by
  unfold filesBelow
  apply List.pairwise_filterMap.mpr
  apply (hs.below_pairwise place).imp
  rintro ⟨way, entry⟩ ⟨way', entry'⟩ hne found hf found' hf' rfl
  cases entry <;> cases entry' <;> cases hf <;> cases hf'
  exact hne rfl

/-- The keys of the files below a place, but for those that a listing leaves out. -/
def listed (scope : Key) (place : Place) (d : Disk) : List Key :=
  Key.sort <| ((filesBelow place d).filter (!isHidden scope ·)).map fun way =>
    scope.join (.ofNames way)

theorem mem_listed (hs : d.Sound) {k : Key} :
    k ∈ listed scope place d ↔
      ∃ way, way ≠ [] ∧ isHidden scope way = false ∧
        (∃ file, d.at? (place ++ way) = some (.file file)) ∧ scope.join (.ofNames way) = k := by
  unfold listed
  rw [(Key.sort_perm _).mem_iff, List.mem_map]
  simp only [List.mem_filter, mem_filesBelow hs, Bool.not_eq_eq_eq_not, Bool.not_true]
  exact exists_congr fun way => by tauto

/-- The keys are ascending if the names on the ways to the files are texts. -/
theorem listed_pairwise (hs : d.Sound)
    (htexts : ∀ way file, isHidden scope way = false → d.at? (place ++ way) = some (.file file) →
      ∃ key : Key, key.names = way) : (listed scope place d).Pairwise (· < ·) := by
  refine sort_join_pairwise scope ((nodup_filesBelow place hs).filter _) fun way hm => ?_
  obtain ⟨hbelow, hhidden⟩ := List.mem_filter.mp hm
  obtain ⟨-, file, hat⟩ := (mem_filesBelow hs).mp hbelow
  exact htexts way file (by simpa using hhidden) hat

/-- A listing has the keys of some ways, if these are the ways to the files that it shows. -/
theorem listed_eq_sort (hs : d.Sound) {ways : List Place} (hn : ways.Nodup)
    (h : ∀ way, way ∈ ways ↔ way ≠ [] ∧ isHidden scope way = false ∧
      ∃ file, d.at? (place ++ way) = some (.file file)) :
    listed scope place d = Key.sort (ways.map (scope.join <| .ofNames ·)) := by
  refine Key.sort_congr (List.Perm.map _ ?_)
  refine (List.perm_ext_iff_of_nodup ((nodup_filesBelow place hs).filter _) hn).mpr fun way => ?_
  rw [h, List.mem_filter, mem_filesBelow hs]
  simp only [Bool.not_eq_eq_eq_not, Bool.not_true]
  tauto

/-- Listings show alike if the same files stand where values can be. -/
theorem listed_congr (hs : d.Sound) (hs' : d'.Sound) (hk : IsShown scope)
    (h : ∀ way, Visible way → ((∃ file, d.at? (root ++ way) = some (.file file)) ↔
      ∃ file, d'.at? (root ++ way) = some (.file file))) :
    listed scope (root ++ scope.names) d = listed scope (root ++ scope.names) d' := by
  refine listed_eq_sort hs ((nodup_filesBelow _ hs').filter _) fun way => ?_
  rw [List.mem_filter, mem_filesBelow hs']
  simp only [Bool.not_eq_eq_eq_not, Bool.not_true, and_assoc]
  refine and_congr_right fun hne => ?_
  rw [and_comm]
  refine and_congr_right fun hhidden => ?_
  rw [List.append_assoc, h _ (hk.visible_append hne hhidden)]

/-- Without a directory there are no files below. -/
theorem listed_eq_nil (hr : d.Rooted base dir.rootPath root) (hs : d.Sound)
    (hdir : d.at? (root ++ scope.names) ≠ some .directory) :
    listed scope (root ++ scope.names) d = [] := by
  apply List.eq_nil_iff_forall_not_mem.mpr
  intro k hm
  obtain ⟨way, hway, -, ⟨file, hat⟩, -⟩ := (mem_listed hs).mp hm
  rw [List.append_assoc, hr.leaf hdir hway] at hat
  cases hat

/-- In a tree a listing comes to everything below its scope. -/
theorem shows_in_tree (hr : d.Rooted base dir.rootPath root) {way : List FileName}
    {entry : DiskEntry} (hshown : isHidden scope way = false)
    (hat : d.at? (root ++ scope.names ++ way) = some entry) :
    Shows d scope (root ++ scope.names) way entry := by
  refine ⟨?_, hshown, hat⟩
  rintro front more rfl hne
  have hsome : (d.at? (root ++ (scope.names ++ front ++ more))).isSome := by
    simp only [List.append_assoc] at hat ⊢
    rw [hat]
    rfl
  rw [List.append_assoc]
  exact hr.above hsome hne

/-- Every directory in a tree can be read. -/
theorem readDirectory_in_tree (hr : d.Rooted base dir.rootPath root) {way : List FileName}
    (h : Shows d scope (root ++ scope.names) way .directory) :
    d.readDirectory ((dir.rootPath.descend scope.names).descend way) =
      .ok (d.entriesIn (root ++ scope.names ++ way)) := by
  have hat := h.at?
  rw [List.append_assoc] at hat ⊢
  rw [← DiskPath.descend_append]
  exact (hr.leads_descend hat).readDirectory

theorem sweep_eq (hr : d.Rooted base dir.rootPath root) (hs : d.Sound)
    (hdir : d.at? (root ++ scope.names) = some .directory) :
    ∃ swept, Sweep.run d.readDirectory (d.entries.size + 1)
        ⟨[(dir.rootPath.descend scope.names, scope)], []⟩ = .ok swept ∧
      Key.sort swept.found = listed scope (root ++ scope.names) d := by
  have hread : ∀ way, Shows d scope (root ++ scope.names) way .directory →
      d.readDirectory ((dir.rootPath.descend scope.names).descend way) =
        .ok (d.entriesIn (root ++ scope.names ++ way)) := fun way => readDirectory_in_tree hr
  rcases Sweep.run_start hs hdir (fun way h => Or.inl ⟨_, hread way h, List.Perm.refl _⟩)
    (Nat.lt_succ_self _) with ⟨all, hrun, hnodup, hall, -⟩ | ⟨way, e, hshow, he, -⟩
  · refine ⟨_, hrun, (listed_eq_sort hs hnodup fun way => ?_).symm⟩
    rw [hall]
    constructor
    · rintro ⟨file, h⟩
      exact ⟨h.ne_nil hdir, h.shown, file, h.at?⟩
    · rintro ⟨-, hshown, file, hat⟩
      exact ⟨file, shows_in_tree hr hshown hat⟩
  · rw [hread way hshow] at he
    cases he

/-- A listing is decided by what the path of its scope finds. -/
theorem list_eq_stat (hr : d.Rooted base dir.rootPath root) (hs : d.Sound) {p : DiskPath}
    (hpath : dir.path scope = .ok p) :
    dir.list scope d =
      match d.stat p with
      | .error e => if e.isMissing then .ok [] else .error (failure scope e)
      | .ok .directory => .ok (listed scope (root ++ scope.names) d)
      | .ok _ => .ok [] := by
  obtain ⟨rfl, hplain⟩ := path_eq_ok hpath
  unfold Directory.list listBy
  rw [hpath]
  rcases hstat : d.stat (dir.rootPath.descend scope.names) with e | ⟨_ | file | target⟩
  · simp [hstat]
  · have hdir := hr.at?_of_stat (fun name hm => isName_of_isPlain (hplain name hm)) hstat
    obtain ⟨swept, hrun, hfound⟩ := sweep_eq hr hs hdir
    simp [hstat, hrun, hfound]
  · simp [hstat]
  · simp [hstat]

theorem Suits.list_eq (hk : dir.Suits scope) (hr : d.Rooted base dir.rootPath root)
    (hs : d.Sound) : dir.list scope d = .ok (listed scope (root ++ scope.names) d) := by
  rw [list_eq_stat hr hs hk.path]
  rcases hat : d.at? (root ++ scope.names) with _ | ⟨_ | file | target⟩
  · obtain ⟨e, hstat, hmiss⟩ := hr.stat_missing hk.admits hat
    have hlisted : listed scope (root ++ scope.names) d = [] :=
      listed_eq_nil hr hs (by simp [hat])
    simp [hstat, hmiss, hlisted]
  · rw [hr.stat hk.admits hat]
  · rw [hr.stat hk.admits hat, listed_eq_nil hr hs (by simp [hat])]
  · exact absurd hat (hr.linkless _ target)

end Directory

end BlobStore
