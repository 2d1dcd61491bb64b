import BlobStore.Proofs.Directory.SameValues
import BlobStore.Proofs.Directory.Tidy
import BlobStore.Proofs.Usage

/-!
# Listings of a directory show what can be read

A read asks the disk for one path, and a listing goes through the directories. They agree on the
keys that do not lead to the drafts: a listing of the root shows those that have values, and a
listing under another key those of them that are nested under it. A key that leads to the drafts can
have a value, too, which a listing of the root does not show.

## Main definitions

* `Directory.Running`: the states of a storage in a directory while it is used
* `Directory.Agrees`: reads and listings agree

## Main results

* `Directory.Tidy.contains_iff`, `Directory.Tidy.list_eq`: what a tidy directory shows
* `Directory.guards_running`: every step leads to such a state
* `Directory.reads_agree_with_listings`: reads and listings agree after any use
-/

namespace BlobStore

namespace Directory

variable {dir : Directory} {key scope : Key} {base d : Disk} {root : Place}

/-! ## Reads -/

/-- A key has a value if its file is there. -/
theorem contains_eq_true_iff :
    dir.contains key d = .ok true ↔ ∃ file, dir.file key d = .ok file := by
  unfold Directory.contains Directory.file
  cases dir.path key with
  | error e => simp
  | ok p =>
    dsimp only
    rcases d.stat p with e | ⟨_ | file | target⟩
    · by_cases he : e.isMissing <;> simp [he]
    · simp
    · simp
    · simp

namespace Tidy

/-- A key that does not lead to the drafts suits the disk if there is a file at its place. -/
theorem suits (h : dir.Tidy base root d) (hk : IsShown key) {file : DiskFile}
    (hat : d.at? (root ++ key.names) = some (.file file)) : dir.Suits key :=
  have hplaced := h.placed _ file hat
  ⟨hplaced.plain, hplaced.admits.short, hplaced.admits.accepted, hk⟩

/-- Such a key has a value if there is a file at its place. -/
theorem contains_iff (h : dir.Tidy base root d) (hk : IsShown key) :
    dir.contains key d = .ok true ↔ ∃ file, d.at? (root ++ key.names) = some (.file file) := by
  rw [contains_eq_true_iff]
  constructor
  · rintro ⟨file, hfile⟩
    obtain ⟨-, -, names, name, hsegments, hat⟩ := file_place h.rooted hfile
    exact ⟨file, hsegments ▸ hat⟩
  · rintro ⟨file, hat⟩
    refine ⟨file, ?_⟩
    rw [(h.suits hk hat).file_eq h.rooted, hat]

/-! ## Listings -/

/-- A file is at the place of a key. -/
theorem exists_key (h : dir.Tidy base root d) {way : List FileName} {file : DiskFile}
    (hat : d.at? (root ++ way) = some (.file file)) : ∃ key : Key, key.names = way :=
  ⟨.ofNames way, names_ofNames (h.placed way file hat).plain⟩

theorem listed_pairwise (h : dir.Tidy base root d) (scope : Key) :
    (listed scope (root ++ scope.names) d).Pairwise (· < ·) := by
  refine Directory.listed_pairwise h.sound fun way file _ hat => ?_
  rw [List.append_assoc] at hat
  obtain ⟨key, hkey⟩ := h.exists_key hat
  obtain ⟨rest, hrest, -⟩ := Key.names_eq_append.mp hkey
  exact ⟨rest, hrest⟩

/-- A listing of the root shows the keys with values, but for those that lead to the drafts. -/
theorem mem_listed_root (h : dir.Tidy base root d) :
    key ∈ listed Key.root root d ↔
      IsShown key ∧ ∃ file, d.at? (root ++ key.names) = some (.file file) := by
  rw [mem_listed h.sound]
  constructor
  · rintro ⟨way, hway, hhidden, ⟨file, hat⟩, rfl⟩
    obtain ⟨key, rfl⟩ := h.exists_key hat
    have hroot : IsShown Key.root := by decide
    rw [Key.ofNames_names]
    exact ⟨(hroot.visible_append hway hhidden).2, file, hat⟩
  · rintro ⟨hk, file, hat⟩
    refine ⟨key.names, ?_, ?_, ⟨file, hat⟩, by rw [Key.ofNames_names]; rfl⟩
    · intro he
      rw [he, List.append_nil, h.rooted.directory] at hat
      cases hat
    · have hhead : (key.names.head? == some draftsName) = false := by simpa [IsShown] using hk
      unfold isHidden
      rw [hhead, Bool.and_false]

/-- A listing under another key shows those that are nested under it, in the same order. -/
theorem listed_eq_filter (h : dir.Tidy base root d) (hk : IsShown scope) :
    listed scope (root ++ scope.names) d =
      (listed Key.root root d).filter (·.Under scope) := by
  have hroot : (listed Key.root root d).Pairwise (· < ·) := by
    simpa using h.listed_pairwise Key.root
  -- both are ascending, so it is enough that they show the same keys
  refine Key.eq_of_pairwise (h.listed_pairwise scope) (hroot.filter _) fun k => ?_
  rw [mem_listed h.sound, List.mem_filter, h.mem_listed_root, decide_eq_true_iff, under_iff_names]
  constructor
  · rintro ⟨way, hway, hhidden, ⟨file, hat⟩, rfl⟩
    rw [List.append_assoc] at hat
    obtain ⟨key, hkey⟩ := h.exists_key hat
    obtain ⟨rest, rfl, rfl⟩ := Key.names_eq_append.mp hkey
    rw [Key.ofNames_names, Key.names_join]
    refine ⟨⟨?_, file, hat⟩, rest.names, hway, rfl⟩
    rw [IsShown, Key.names_join]
    exact (hk.visible_append hway hhidden).2
  · rintro ⟨⟨hshown, file, hat⟩, way, hway, hnames⟩
    obtain ⟨rest, rfl, rfl⟩ := Key.names_eq_append.mp hnames
    rw [hnames, ← List.append_assoc] at hat
    refine ⟨rest.names, hway, ?_, ⟨file, hat⟩, by rw [Key.ofNames_names]⟩
    unfold isHidden
    by_cases hscope : scope = Key.root
    · subst hscope
      rw [IsShown, hnames] at hshown
      simpa [Key.root, Key.isRoot] using hshown
    · have hsegments : scope.segments ≠ [] := fun he => hscope (Key.ext_segments he)
      simp [Key.isRoot, hsegments]

/-- A listing shows the files below the place of its key, and fails as a read of the key does. -/
theorem list_eq (h : dir.Tidy base root d) (scope : Key) :
    dir.list scope d =
      (dir.contains scope d).map fun _ => listed scope (root ++ scope.names) d := by
  cases hpath : dir.path scope with
  | error e => simp only [list_of_path_error hpath, Directory.contains, hpath, Except.map]
  | ok p =>
    rw [list_eq_stat h.rooted h.sound hpath]
    simp only [Directory.contains, hpath]
    obtain ⟨rfl, -⟩ := path_eq_ok hpath
    have hempty : d.stat (dir.rootPath.descend scope.names) ≠ .ok .directory →
        listed scope (root ++ scope.names) d = [] := by
      intro hstat
      apply List.eq_nil_iff_forall_not_mem.mpr
      intro k hm
      obtain ⟨way, hway, -, ⟨file, hat⟩, -⟩ := (mem_listed h.sound).mp hm
      rw [List.append_assoc] at hat
      have hdir := h.rooted.above (by rw [hat]; rfl) hway
      have hadmits := (h.placed _ file hat).admits.of_append h.rooted.led.accepted
      exact hstat (h.rooted.stat hadmits hdir)
    rcases hstat : d.stat (dir.rootPath.descend scope.names) with e | ⟨_ | file | target⟩
    · rw [hempty (by simp [hstat])]
      by_cases he : e.isMissing <;> simp [he, Except.map]
    · simp [Except.map]
    · simp [hempty (by simp [hstat]), Except.map]
    · simp [hempty (by simp [hstat]), Except.map]

/-- The root can be listed. -/
theorem list_root (h : dir.Tidy base root d) :
    dir.list Key.root d = .ok (listed Key.root root d) := by
  have hpath : dir.path Key.root = .ok dir.rootPath := rfl
  rw [list_eq_stat h.rooted h.sound hpath, h.rooted.leads.stat]
  simp [Key.root]

end Tidy

/-! ## Storages in use -/

/-- A storage in a directory while it is used: the root is not made yet, and no save goes on, or the
directory is tidy, and the drafts in hand are its own. -/
def Running (dir : Directory) (s : Disk × Nat) (inHand : Draft → Prop) : Prop :=
  (dir.Unmade s.1 ∧ ∀ draft, ¬ inHand draft) ∨
    ∃ base root, dir.Settled base ∧ dir.Tidy base root s.1 ∧
      ∀ draft, inHand draft → Lends base draft

theorem Vacant.tidy (h : dir.Vacant d) : ∃ root, dir.Tidy d root d := by
  obtain ⟨root, hrests⟩ := h.rests
  refine ⟨root, hrests.rooted, hrests.sound, fun way file hat => ?_⟩
  by_cases hway : way = []
  · rw [hway, List.append_nil, hrests.rooted.directory] at hat
    cases hat
  · rw [hrests.rooted.empty way hway] at hat
    cases hat

/-- Before the root is made, listings are empty, or fail as reads do. -/
theorem Unmade.list (h : dir.Unmade d) (scope : Key) :
    dir.list scope d = (dir.contains scope d).map fun _ => [] := by
  cases hpath : dir.path scope with
  | error e => simp only [list_of_path_error hpath, Directory.contains, hpath, Except.map]
  | ok p =>
    obtain ⟨rfl, hplain⟩ := path_eq_ok hpath
    obtain ⟨e, he⟩ := h.walk_error fun name hm => isName_of_isPlain (hplain name hm)
    unfold Directory.list listBy Directory.contains
    simp only [hpath, Disk.stat, he]
    by_cases hmissing : e.isMissing <;> simp [hmissing, Except.map]

/-- **Steps.** Whatever a storage in a directory is asked while it is used leads to such a state. -/
theorem guards_running (dir : Directory) : dir.backend.Guards dir.Running where
  fewer {s inHand others} h hfewer := by
    rcases h with ⟨hunmade, hnone⟩ | ⟨base, root, hb, htidy, hlends⟩
    · exact Or.inl ⟨hunmade, fun draft hd => hnone draft (hfewer draft hd)⟩
    · exact Or.inr ⟨base, root, hb, htidy, fun draft hd => hlends draft (hfewer draft hd)⟩
  answer r now {s inHand} h := by
    rcases h with ⟨hunmade, hnone⟩ | ⟨base, root, hb, htidy, hlends⟩
    · by_cases hsave : ∃ key content, r = .save key content
      · obtain ⟨key, content, rfl⟩ := hsave
        show dir.Running (dir.save key content now s).2 inHand
        rcases hunmade.save_cases key content with ⟨e, he⟩ | ⟨made, -, hvacant, he⟩
        · obtain ⟨events, n, he⟩ := he now s.2
          rw [he]
          exact Or.inl ⟨hunmade, hnone⟩
        · obtain ⟨root, htidy⟩ := hvacant.tidy
          rw [he now s.2]
          exact Or.inr ⟨made, root, hvacant.settled,
            htidy.save hvacant.settled key content now s.2, fun draft hd => absurd hd (hnone draft)⟩
      · have hsame : (dir.answer r now s).2 = s := answer_of_file_error
          (fun key content he => hsave ⟨key, content, he⟩) hunmade.file_error now
        show dir.Running (dir.answer r now s).2 inHand
        rw [hsame]
        exact Or.inl ⟨hunmade, hnone⟩
    · exact Or.inr ⟨base, root, hb, htidy.answer hb r now s.2, hlends⟩
  start key size now {s inHand} h := by
    show dir.Running (dir.startSave key now s).2 fun draft =>
      inHand draft ∨ (dir.startSave key now s).1.result = .ok draft
    rcases h with ⟨hunmade, hnone⟩ | ⟨base, root, hb, htidy, hlends⟩
    · rcases hunmade.startSave key with ⟨e, he⟩ | ⟨made, -, hvacant, he⟩
      · obtain ⟨events, n, he⟩ := he now s.2
        rw [he]
        refine Or.inl ⟨hunmade, ?_⟩
        rintro draft (hd | hd)
        · exact hnone draft hd
        · cases hd
      · obtain ⟨root, htidy⟩ := hvacant.tidy
        obtain ⟨htidy', hlends⟩ := htidy.startSave key now s.2
        rw [he now s.2]
        refine Or.inr ⟨made, root, hvacant.settled, htidy', ?_⟩
        rintro draft (hd | hd)
        · exact absurd hd (hnone draft)
        · exact hlends draft hd
    · obtain ⟨htidy', hlends'⟩ := htidy.startSave key now s.2
      refine Or.inr ⟨base, root, hb, htidy', ?_⟩
      rintro draft (hd | hd)
      · exact hlends draft hd
      · exact hlends' draft hd
  append draft piece now {s inHand} h hdraft := by
    rcases h with ⟨-, hnone⟩ | ⟨base, root, hb, htidy, hlends⟩
    · exact absurd hdraft (hnone draft)
    · obtain ⟨htidy', hlends'⟩ := htidy.append (hlends draft hdraft) piece now
      refine Or.inr ⟨base, root, hb, htidy', ?_⟩
      rintro other (ho | rfl)
      · exact hlends other ho
      · exact hlends'
  finish key size draft now {s inHand} h hdraft := by
    rcases h with ⟨-, hnone⟩ | ⟨base, root, hb, htidy, hlends⟩
    · exact absurd hdraft (hnone draft)
    · exact Or.inr ⟨base, root, hb, htidy.finishSave hb key draft, hlends⟩
  fail key size draft cause now {s inHand} h hdraft := by
    rcases h with ⟨-, hnone⟩ | ⟨base, root, hb, htidy, hlends⟩
    · exact absurd hdraft (hnone draft)
    · exact Or.inr ⟨base, root, hb, htidy.abandonSave draft, hlends⟩
  abandon draft {s inHand} h hdraft := by
    rcases h with ⟨-, hnone⟩ | ⟨base, root, hb, htidy, hlends⟩
    · exact absurd hdraft (hnone draft)
    · exact Or.inr ⟨base, root, hb, htidy.abandonSave draft, hlends⟩

/-! ## Agreement -/

/-- Reads and listings agree on the keys that do not lead to the drafts: a listing of the root shows
those with values, and a listing under another shows those of them that are nested under it, in the
same order. If the other cannot be read, the listing fails with the same error. -/
def Agrees (dir : Directory) (d : Disk) : Prop :=
  ∃ keys, dir.list Key.root d = .ok keys ∧
    (∀ key, IsShown key → (dir.contains key d = .ok true ↔ key ∈ keys)) ∧
    ∀ scope, IsShown scope →
      dir.list scope d = (dir.contains scope d).map fun _ => keys.filter (·.Under scope)

theorem Tidy.agrees (h : dir.Tidy base root d) : dir.Agrees d := by
  refine ⟨listed Key.root root d, h.list_root, fun key hk => ?_, fun scope hk => ?_⟩
  · rw [h.contains_iff hk, h.mem_listed_root, and_iff_right hk]
  · rw [h.list_eq scope, h.listed_eq_filter hk]

/-- Before the root is made there is nothing to agree on. -/
theorem Unmade.agrees (h : dir.Unmade d) : dir.Agrees d := by
  have hnone : ∀ key, dir.contains key d ≠ .ok true := by
    intro key hkey
    obtain ⟨file, hfile⟩ := contains_eq_true_iff.mp hkey
    obtain ⟨e, he⟩ := h.file_error key
    rw [he] at hfile
    cases hfile
  have hroot : dir.contains Key.root d = .ok false := by
    have hpath : dir.path Key.root = .ok dir.rootPath := rfl
    simp only [Directory.contains, hpath, Disk.stat, h.missing]
    rfl
  refine ⟨[], ?_, fun key _ => by simp [hnone key], fun scope _ => h.list scope⟩
  rw [h.list, hroot]
  rfl

/-- **Reads and listings agree.** A storage is used in an empty directory, or in one that its first
save makes: by requests, transactions and uploads, in any order, with any keys and any results. In
the state that it comes to, reads and listings agree on the keys that do not lead to the drafts. -/
theorem reads_agree_with_listings (dir : Directory) (d : Disk) (hd : dir.Vacant d ∨ dir.Unmade d)
    (clock : Nat → Time) (deeds : List Deed) :
    dir.Agrees (dir.backend.locked.use clock deeds 0 { store := ((d, 0), {}) }).2.store.1.1 := by
  have hnone : ∀ draft, ¬ InHand [] draft := by
    rintro draft ⟨upload, hm, -⟩
    cases hm
  have hstart : dir.Running (d, 0) (InHand []) := by
    rcases hd with hvacant | hunmade
    · obtain ⟨root, htidy⟩ := hvacant.tidy
      exact Or.inr ⟨d, root, hvacant.settled, htidy, fun draft hd => absurd hd (hnone draft)⟩
    · exact Or.inl ⟨hunmade, hnone⟩
  rcases dir.guards_running.use (u := { store := ((d, 0), {}) }) hstart clock deeds 0 with
    ⟨hunmade, -⟩ | ⟨base, root, -, htidy, -⟩
  · exact hunmade.agrees
  · exact htidy.agrees

/-- A value is put among the drafts while an upload goes on, and is moved from there. -/
def sampleDeeds : List Deed :=
  [.start ⟨["a", "b"]⟩ none, .upload 0 (.feed (.chunk [1])),
    .ask (.save ⟨[".tmp", "x"]⟩ (.ofBytes [2])), .upload 0 .finish,
    .ask (.move ⟨[".tmp", "x"]⟩ ⟨["c"]⟩), .ask (.save ⟨[".tmp", "y"]⟩ (.ofBytes [3]))]

/-- What becomes of a disk when the storage is used. -/
def usedDisk (deeds : List Deed) (d : Disk) : Disk :=
  (sampleDirectory.backend.locked.use (fun n => ⟨n⟩) deeds 0
    { store := ((d, 0), {}) }).2.store.1.1

/-- What the deeds make of an empty root. -/
def sampleUsed : Disk := usedDisk sampleDeeds vacantDisk

theorem sampleUsed_agrees :
    sampleDirectory.Vacant vacantDisk ∧
      sampleDirectory.list Key.root sampleUsed = .ok [⟨["a", "b"]⟩, ⟨["c"]⟩] ∧
      sampleDirectory.contains ⟨["a", "b"]⟩ sampleUsed = .ok true ∧
      sampleDirectory.list ⟨["a"]⟩ sampleUsed = .ok [⟨["a", "b"]⟩] := by
  obtain ⟨keys, hlist, hcontains, hnested⟩ := reads_agree_with_listings sampleDirectory vacantDisk
    (Or.inl vacant_vacantDisk) (fun n => ⟨n⟩) sampleDeeds
  have hkeys : sampleDirectory.list Key.root sampleUsed = .ok [⟨["a", "b"]⟩, ⟨["c"]⟩] := by
    decide +kernel
  obtain rfl : keys = [⟨["a", "b"]⟩, ⟨["c"]⟩] := by
    have hsame := hlist.symm.trans hkeys
    exact Except.ok.inj hsame
  have hcontained : sampleDirectory.contains ⟨["a"]⟩ sampleUsed = .ok false := by decide +kernel
  have hlisted : sampleDirectory.list ⟨["a"]⟩ sampleUsed =
      (sampleDirectory.contains ⟨["a"]⟩ sampleUsed).map _ := hnested ⟨["a"]⟩ (by decide)
  rw [hcontained] at hlisted
  exact ⟨vacant_vacantDisk, hkeys, (hcontains _ (by decide)).mpr (by decide),
    hlisted.trans (by decide)⟩

/-- A root that is reached through a link. -/
def linkedRootDisk : Disk where
  entries := ⟨[(namesOf ["srv"], .directory), (namesOf ["srv", "real"], .directory),
    (namesOf ["srv", "store"], .link (.ofText "real"))]⟩

/-- A value can be put among the drafts. It is there, and a listing of the root does not show it. A
value at the root takes the place of a link that leads to the root, and is not listed either. A name
with a zero is accepted, but can neither be read nor listed. -/
theorem reads_and_listings_differ :
    sampleDirectory.Vacant vacantDisk ∧
      (let after := usedDisk [.ask (.save ⟨[".tmp", "x"]⟩ (.ofBytes [1]))] vacantDisk
       sampleDirectory.contains ⟨[".tmp", "x"]⟩ after = .ok true ∧
         sampleDirectory.list Key.root after = .ok []) ∧
      sampleDirectory.Empty linkedRootDisk ∧
      (let after := usedDisk [.ask (.save Key.root (.ofBytes [1]))] linkedRootDisk
       sampleDirectory.contains Key.root after = .ok true ∧
         sampleDirectory.list Key.root after = .ok []) ∧
      (sampleDirectory.path ⟨["\x00"]⟩).isOk ∧
      (sampleDirectory.list ⟨["\x00"]⟩ vacantDisk).isOk = false :=
  ⟨vacant_vacantDisk, ⟨by decide +kernel, by decide +kernel⟩,
    ⟨namesOf ["srv", "real"], by decide +kernel, by decide +kernel, by decide +kernel⟩,
    ⟨by decide +kernel, by decide +kernel⟩, by decide +kernel, by decide +kernel⟩

end Directory

end BlobStore
