import BlobStore.Proofs.Directory.Path
import BlobStore.Proofs.Directory.Stored
import BlobStore.Proofs.Disk.Emptied
import BlobStore.Proofs.Disk.Growth
import Mathlib.Data.List.Infix

/-!
# Directories left empty

A removal, and a move to another key, take the file of a key away and then remove the directories on
the way to it, from the nearest up to the first that cannot be removed. Each is found by its path
when its turn comes. So what is removed is what the file leaves empty, as long as the paths lead
where they led: no path to a directory leads over one that is removed before it, and none over a
link that the file was put in place of. Nothing else that changes is in the way: no path leads over
a file, over the last link on the way to one, or over a directory that was not there.

## Main definitions

* `Directory.above`: the paths of the directories on the way to the file of a key
* `Directory.leftEmpty`: the directories that are empty when their turns come
* `Directory.Clear`: no path to a directory leads over one that goes before it
* `Directory.RemovesEmptied`: how a disk looks after directories were removed

## Main results

* `Directory.parents_eq_above`: the directories that a storage comes to
* `Directory.above_steady`: the paths on the way to a file lead over no more than the path to it
* `Directory.root_stays`: no directory that is removed is the root
* `Directory.removes_emptied_directories`: what removals and moves leave
-/

namespace BlobStore

namespace Directory

variable {dir : Directory} {d d₁ e : Disk} {p q : DiskPath} {key : Key} {root place : Place}
  {names : List FileName}

/-! ## The directories on the way -/

/-- The paths of the directories on the way to the file of a key, one for each beginning of the key,
from the nearest to the one under the root. -/
def above (dir : Directory) (key : Key) : List DiskPath :=
  key.names.dropLast.inits.tail.reverse.map dir.rootPath.descend

theorem inits_tail_concat (names : List FileName) (last : FileName) :
    (names ++ [last]).inits.tail = names.inits.tail ++ [names ++ [last]] := by
  rw [List.inits_append, List.tail_append_of_ne_nil (by cases names <;> simp)]
  simp

/-- The loop over the paths above a file comes to the beginnings of its key. -/
theorem parents_eq_above (hpath : dir.path key = .ok p) : dir.parents p = dir.above key := by
  obtain ⟨rfl, hplain⟩ := path_eq_ok hpath
  have hn : ∀ name ∈ key.names, DiskPath.IsName name :=
    fun name hm => isName_of_isPlain (hplain name hm)
  unfold above
  generalize key.names = names at hn
  -- on the names from the last on, as the loop goes up
  induction names using List.reverseRecOn with
  | nil => exact parents_root dir
  | append_singleton names last ih =>
    have hnames : ∀ name ∈ names, DiskPath.IsName name :=
      fun name hm => hn name (List.mem_append_left _ hm)
    rw [List.dropLast_concat]
    rcases List.eq_nil_or_concat' names with rfl | ⟨front, name, rfl⟩
    · exact parents_single dir (hn last (by simp))
    · rw [parents_concat dir (by simp) hn, ih hnames, List.dropLast_concat, inits_tail_concat]
      simp

theorem mem_above (hq : q ∈ dir.above key) :
    ∃ front rest, front ≠ [] ∧ rest ≠ [] ∧ key.names = front ++ rest ∧
      q = dir.rootPath.descend front := by
  obtain ⟨front, hfront, rfl⟩ := List.mem_map.mp hq
  rw [List.mem_reverse] at hfront
  have hkey : key.names ≠ [] := by
    intro hnil
    simp [hnil] at hfront
  obtain ⟨names, last, hsegments⟩ := List.eq_nil_or_concat' key.names |>.resolve_left hkey
  rw [hsegments, List.dropLast_concat] at hfront
  obtain ⟨rest, hrest⟩ := (List.mem_inits _ _).mp (List.mem_of_mem_tail hfront)
  refine ⟨front, rest ++ [last], ?_, by simp, by rw [hsegments, ← hrest, List.append_assoc], rfl⟩
  rintro rfl
  cases names <;> simp at hfront

/-- A directory on the way to something has a place, its path leads over no more than the path to
that, and its name is not too long. -/
theorem above_steady (hpath : dir.path key = .ok p) (hplace : d.place? p = some place)
    (hq : q ∈ dir.above key) :
    (d.place? q).isSome ∧ (∀ piece ∈ q.passes, Disk.isTooLong piece = false) ∧
      ∀ x, ¬ d.PassesOver p x → ¬ d.PassesOver q x := by
  obtain ⟨rfl, hplain⟩ := path_eq_ok hpath
  obtain ⟨front, rest, hfront, hrest, hsegments, rfl⟩ := mem_above hq
  have hn : ∀ name ∈ front ++ rest, DiskPath.IsName name :=
    fun name hm => isName_of_isPlain (hplain name (hsegments ▸ hm))
  rw [hsegments] at hplace ⊢
  obtain ⟨found, hfound, hsteady⟩ := Disk.not_passesOver_of_append hn hfront hplace
  exact ⟨by rw [hfound]; rfl, Disk.short_of_append hn hrest hplace, hsteady⟩

/-! ## The root -/

/-- The path of the root leads to it, if it leads anywhere. -/
def LeadsTo (dir : Directory) (e : Disk) (root : Place) : Prop :=
  ∀ there, e.strides .entry Disk.linkLimit (e.start dir.rootPath)
    (dir.rootPath.passes ++ [.text "."]) = .ok there → there = root

/-- A directory that is found below the root is not the root, since something stands in the root on
the way to it. -/
theorem root_not_removed (hl : dir.LeadsTo e root) (hne : names ≠ [])
    (hn : ∀ name ∈ names, DiskPath.IsName name)
    (hp : e.place? (dir.rootPath.descend names) = some place) (hempty : (e.below place).isEmpty) :
    place ≠ root := by
  obtain ⟨init, last, rfl⟩ := List.eq_nil_or_concat' names |>.resolve_left hne
  have hns : ∀ name ∈ init ++ [last], name ≠ .text "" := fun name hm => (hn name hm).1
  obtain ⟨here, hfinds, rfl⟩ := Disk.finds_of_descend hns hp
  have hway := hfinds.way
  rw [Disk.start_descend e hns, List.append_assoc] at hway
  obtain ⟨there, hthere⟩ := Disk.strides_front hway (by simp)
  obtain rfl := hl there hthere
  obtain ⟨m, hm⟩ := Disk.strides_append hthere
  rw [hm] at hway
  cases init with
  | nil =>
    rw [List.nil_append, Disk.strides_dot, Disk.strides_nil] at hway
    rw [← Except.ok.inj hway]
    simp
  | cons first rest =>
    rintro rfl
    obtain ⟨-, hdot, hup⟩ := hn first (by simp)
    obtain ⟨entry, hat⟩ := Option.isSome_iff_exists.mp (Disk.at?_of_strides_cons hdot hup hway)
    exact Disk.below_isEmpty_of_at? (by simp) hat hempty

/-- The path of the root leads where it led, if the path to something below the root does. -/
theorem leadsTo_of_steady (hroot : d.Leads dir.rootPath root) (hne : names ≠ [])
    (hn : ∀ name ∈ names, DiskPath.IsName name)
    (hp : d.place? (dir.rootPath.descend names) = some place) (hc : d₁.current = d.current)
    (hsteady : ∀ x, d₁.at? x ≠ d.at? x → ¬ d.PassesOver (dir.rootPath.descend names) x) :
    dir.LeadsTo d₁ root := by
  obtain ⟨init, last, rfl⟩ := List.eq_nil_or_concat' names |>.resolve_left hne
  have hns : ∀ name ∈ init ++ [last], name ≠ .text "" := fun name hm => (hn name hm).1
  obtain ⟨here, hfinds, -⟩ := Disk.finds_of_descend hns hp
  obtain ⟨above, habove, hstays⟩ := hfinds.first
  rw [Disk.start_descend d hns] at habove hstays
  have hsame : above = root := Except.ok.inj (habove.symm.trans hroot.way)
  subst hsame
  have hway := Disk.strides_steady habove fun x hx => hstays x (hsteady x hx)
  have hs : d₁.start dir.rootPath = d.start dir.rootPath := by rw [Disk.start, Disk.start, hc]
  intro there hthere
  rw [hs, hway] at hthere
  exact (Except.ok.inj hthere).symm

theorem LeadsTo.erase (h : dir.LeadsTo e root) (x : Place) : dir.LeadsTo (e.erase x) root :=
  fun there hthere => h there ((Disk.includes_erase e x).strides hthere)

/-- No directory that is removed is the root. -/
theorem root_stays (hl : dir.LeadsTo e root) (hroot : e.at? root = some .directory)
    {paths : List DiskPath} (hpaths : ∀ q ∈ paths, ∃ names, names ≠ [] ∧
      (∀ name ∈ names, DiskPath.IsName name) ∧ q = dir.rootPath.descend names) :
    (e.removeDirectories paths).at? root = some .directory := by
  induction paths generalizing e with
  | nil => exact hroot
  | cons q rest ih =>
    rw [Disk.removeDirectories]
    cases hr : e.removeDirectory q with
    | error e => exact hroot
    | ok e' =>
      obtain ⟨place, hplace, -, hempty, rfl⟩ := Disk.place_of_removeDirectory hr
      obtain ⟨names, hne, hn, rfl⟩ := hpaths q List.mem_cons_self
      have hother := root_not_removed hl hne hn hplace hempty
      refine ih (hl.erase place) ?_ fun p hp => hpaths p (List.mem_cons_of_mem _ hp)
      rw [Disk.at?_erase_of_ne hother, hroot]

/-! ## What is removed -/

/-- The directories on the way to the file of a key, from the nearest on, as far as they are empty
once those before are gone: on the disk `d₁`, at the places that they have on the disk `d`. -/
def leftEmpty (dir : Directory) (d d₁ : Disk) (key : Key) : List Place :=
  d₁.emptied ((dir.above key).filterMap d.place?)

/-- The paths of the directories that are to be removed, and of the one after them. -/
def tried (dir : Directory) (d d₁ : Disk) (key : Key) : List DiskPath :=
  (dir.above key).take ((dir.leftEmpty d d₁ key).length + 1)

/-- No path of a directory that is to be removed leads over one that goes before it. -/
def Clear (dir : Directory) (d d₁ : Disk) (key : Key) : Prop :=
  ((dir.above key).take (dir.leftEmpty d d₁ key).length).Pairwise fun q q' =>
    ∀ place ∈ d.place? q, ¬ d₁.PassesOver q' place

instance decidableClear (dir : Directory) (d d₁ : Disk) (key : Key) :
    Decidable (dir.Clear d d₁ key) :=
  inferInstanceAs (Decidable (List.Pairwise _ _))

/-- How a disk looks after the directories on the way to the file of a key were removed: `d` is the
disk with the file, and `d₁` the disk without it. -/
structure RemovesEmptied (dir : Directory) (d d₁ : Disk) (key : Key) (d' : Disk) : Prop where
  /-- Only directories that are left empty are removed, from the nearest on. -/
  part : ∃ lost, lost <+: dir.leftEmpty d d₁ key ∧ d' = d₁.eraseAll lost
  all : d' = d₁.eraseAll (dir.leftEmpty d d₁ key) ↔ dir.Clear d d₁ key
  root : ∀ root, d.Leads dir.rootPath root → d'.at? root = some .directory

/-- The root stays if the path of the nearest directory leads where it did. -/
theorem root_of_steady (hpath : dir.path key = .ok p) (hplace : d.place? p = some place)
    (hc : d₁.current = d.current) (hroot : d.Leads dir.rootPath root)
    (hstays : d₁.at? root = some .directory)
    (hsteady : ∀ q ∈ (dir.above key).head?, ∀ x, d₁.at? x ≠ d.at? x → ¬ d.PassesOver q x) :
    (d₁.removeDirectories (dir.above key)).at? root = some .directory := by
  obtain ⟨-, hplain⟩ := path_eq_ok hpath
  have hnamed : ∀ q ∈ dir.above key, ∃ names, names ≠ [] ∧
      (∀ name ∈ names, DiskPath.IsName name) ∧ q = dir.rootPath.descend names := by
    intro q hq
    obtain ⟨front, more, hfront, -, hsplit, rfl⟩ := mem_above hq
    refine ⟨front, hfront, fun name hm => ?_, rfl⟩
    exact isName_of_isPlain (hplain name (hsplit ▸ List.mem_append_left _ hm))
  cases hfirst : dir.above key with
  | nil => exact hstays
  | cons q rest =>
    have hq : q ∈ dir.above key := by simp [hfirst]
    have hway := hsteady q (by simp [hfirst])
    obtain ⟨found, hfound⟩ := Option.isSome_iff_exists.mp (above_steady hpath hplace hq).1
    obtain ⟨names, hne, hn, rfl⟩ := hnamed q hq
    rw [← hfirst]
    exact root_stays (leadsTo_of_steady hroot hne hn hfound hc hway) hstays hnamed

/-- If no path leads over anything that has changed, the directories that are left empty are
removed. -/
theorem removesEmptied_of_steady (hpath : dir.path key = .ok p) (hplace : d.place? p = some place)
    (hc : d₁.current = d.current)
    (hdirs : ∀ x, d.at? x = some .directory → d₁.at? x = some .directory)
    (hsteady : ∀ q ∈ dir.tried d d₁ key, ∀ x, d₁.at? x ≠ d.at? x → ¬ d.PassesOver q x) :
    dir.RemovesEmptied d d₁ key (d₁.removeDirectories (dir.parents p)) := by
  rw [parents_eq_above hpath]
  have habove := fun q hq => above_steady (q := q) hpath hplace hq
  have hled : ∀ q ∈ dir.tried d d₁ key, d₁.place? q = d.place? q := by
    intro q hq
    obtain ⟨x, hx⟩ := Option.isSome_iff_exists.mp (habove q (List.mem_of_mem_take hq)).1
    rw [hx, Disk.place?_steady hx hc (hsteady q hq)]
  obtain ⟨lost, hprefix, hlost, hall⟩ := Disk.removeDirectories_emptied (.refl d₁) rfl
    (fun q hq => (habove q hq).1) (fun q hq => (habove q hq).2.1) rfl hled
  refine ⟨⟨lost, hprefix, hlost⟩, ?_, fun root hroot => ?_⟩
  · have htop : [] ∉ (dir.above key).filterMap d.place? := by
      intro htop
      obtain ⟨q, -, hq⟩ := List.mem_filterMap.mp htop
      exact Disk.place?_ne_nil hq rfl
    rw [hlost, leftEmpty, Disk.eraseAll_eq_iff htop hprefix, hall]
    simp [Clear, leftEmpty]
  · refine root_of_steady hpath hplace hc hroot (hdirs root hroot.directory) fun q hq => ?_
    apply hsteady q
    unfold tried
    cases hfirst : dir.above key with
    | nil => simp [hfirst] at hq
    | cons first rest =>
      rw [hfirst] at hq
      simp [Option.mem_some.mp hq]

/-! ## Removals and moves -/

theorem stat_of_file {file : DiskFile} (h : dir.file key d = .ok file)
    (hpath : dir.path key = .ok p) : d.stat p = .ok (.file file) := by
  unfold Directory.file at h
  rw [hpath] at h
  simp only at h
  split at h
  · cases h
    assumption
  · cases h
  · cases h

/-- The path of a directory on the way to a file leads over that file no more than its own path. -/
theorem source_steady (hw : d.Whole) (hpath : dir.path key = .ok p) {file : DiskFile}
    (hfile : dir.file key d = .ok file) (hplace : d.place? p = some place)
    (hq : q ∈ dir.above key) : ¬ d.PassesOver q place := by
  obtain ⟨found, hfound, hsource⟩ := Disk.not_passesOver_source hw (stat_of_file hfile hpath)
  obtain rfl : place = found := Option.some.inj (hplace.symm.trans hfound)
  exact (above_steady hpath hplace hq).2.2 _ hsource

/-- A removal takes the file away and then removes directories. -/
theorem of_remove_ok {d' : Disk} (h : dir.remove key d = (.ok (), d')) :
    ∃ p file d₁, dir.path key = .ok p ∧ dir.file key d = .ok file ∧ d.removeFile p = .ok d₁ ∧
      d' = d₁.removeDirectories (dir.parents p) := by
  unfold Directory.remove at h
  split at h
  · cases (Prod.mk.inj h).1
  · cases (Prod.mk.inj h).1
  · rename_i file p hfile hpath
    split at h
    · cases (Prod.mk.inj h).1
    · exact ⟨p, file, _, hpath, hfile, ‹_›, (Prod.mk.inj h).2.symm⟩

/-- A move to another key makes directories, renames the file and then removes directories. -/
theorem of_move_ok {source destination : Key} (hne : source ≠ destination) {d' : Disk}
    (h : dir.move source destination d = (.ok (), d')) :
    ∃ p target file d₀ d₁, dir.path source = .ok p ∧ dir.path destination = .ok target ∧
      dir.file source d = .ok file ∧ d.makeDirectories target.parent = (.ok (), d₀) ∧
      d₀.renameFile p target = .ok d₁ ∧ d' = d₁.removeDirectories (dir.parents p) := by
  unfold Directory.move at h
  split at h
  · cases (Prod.mk.inj h).1
  · rename_i target htarget
    split at h
    · cases (Prod.mk.inj h).1
    · cases (Prod.mk.inj h).1
    · rename_i file p hfile hpath
      simp only [if_neg hne, install] at h
      split at h
      · cases (Prod.mk.inj h).1
      · rename_i installed d₁ hinstall
        obtain rfl := (Prod.mk.inj h).2
        split at hinstall
        · cases (Prod.mk.inj hinstall).1
        · rename_i d₀ hmake
          split at hinstall
          · cases (Prod.mk.inj hinstall).1
          · rename_i renamed hrename
            obtain rfl := (Prod.mk.inj hinstall).2
            exact ⟨p, target, file, d₀, renamed, hpath, htarget, hfile, hmake, hrename, rfl⟩

theorem removesEmptied_of_remove (hw : d.Whole) {d' : Disk} (h : dir.remove key d = (.ok (), d')) :
    ∃ p place, dir.path key = .ok p ∧ d.place? p = some place ∧
      dir.RemovesEmptied d (d.erase place) key d' := by
  obtain ⟨p, file, d₁, hpath, hfile, hremove, rfl⟩ := of_remove_ok h
  obtain ⟨place, hplace, hdir, rfl⟩ := Disk.place_of_removeFile hremove
  refine ⟨p, place, hpath, hplace, removesEmptied_of_steady hpath hplace rfl ?_ ?_⟩
  · intro x hx
    rwa [Disk.at?_erase_of_ne fun he : place = x => hdir (he ▸ hx)]
  · intro q hq x hx
    obtain rfl : place = x := by
      by_contra hne
      exact hx (Disk.at?_erase_of_ne hne)
    exact source_steady hw hpath hfile hplace (List.mem_of_mem_take hq)

/-- Directories stay where they are, and what else changes is where the file was, where it is put,
and where directories are made. -/
theorem renamed_of_gains {d₀ : Disk} {origin : Place} (hg : d.Gains d₀)
    (hdir : d₀.at? origin ≠ some .directory) (hfree : d₀.at? place ≠ some .directory) :
    (∀ x, d.at? x = some .directory → (d₀.renamed origin place).at? x = some .directory) ∧
      ∀ x, (d₀.renamed origin place).at? x ≠ d.at? x →
        x = origin ∨ x = place ∨ d.at? x = none := by
  have hsame : ∀ x, x ≠ origin → x ≠ place → (d₀.renamed origin place).at? x = d₀.at? x :=
    fun x => Disk.at?_renamed_of_ne hfree
  constructor
  · intro x hx
    have hx₀ := hg.includes x _ hx
    rw [hsame x (fun he => hdir (he ▸ hx₀)) (fun he => hfree (he ▸ hx₀)), hx₀]
  · intro x hx
    by_contra hnot
    obtain ⟨ho, hp, hnone⟩ : x ≠ origin ∧ x ≠ place ∧ d.at? x ≠ none := by simpa using hnot
    rw [hsame x ho hp] at hx
    rcases hg.at? x with he | ⟨he, -⟩
    · exact hx he
    · exact hnone he

/-- After the file of a key was removed, or moved to another key, the directories that it left empty
are gone and nothing else is, exactly if no path to one of them leads over one before it. Of a move
this is said as long as no path leads over a link that the file was put in place of. In any case a
directory was empty when it was removed. -/
theorem removes_emptied_directories (dir : Directory) (hw : d.Whole) :
    (∀ key d', dir.remove key d = (.ok (), d') →
      ∃ p place, dir.path key = .ok p ∧ d.place? p = some place ∧
        dir.RemovesEmptied d (d.erase place) key d') ∧
    ∀ source destination d', source ≠ destination →
      dir.move source destination d = (.ok (), d') →
      ∃ p target origin place d₀ d₁, dir.path source = .ok p ∧ dir.path destination = .ok target ∧
        d.place? p = some origin ∧ d₀.place? target = some place ∧
        d.makeDirectories target.parent = (.ok (), d₀) ∧ d.GainsAlong d₀ target.parent.ancestry ∧
        d₁ = d₀.renamed origin place ∧ (∃ lost, d' = d₁.eraseAll lost ∧ d₁.emptied lost = lost) ∧
        ((∀ link, d.at? place = some (.link link) →
            ∀ q ∈ dir.tried d d₁ source, ¬ d.PassesOver q place) →
          dir.RemovesEmptied d d₁ source d') := by
  refine ⟨fun key d' => removesEmptied_of_remove hw, fun source destination d' hne h => ?_⟩
  obtain ⟨p, target, file, d₀, d₁, hpath, htarget, hfile, hmake, hrename, rfl⟩ := of_move_ok hne h
  obtain ⟨origin, place, horigin, hplace, -, hdir, hfree, rfl⟩ := Disk.place_of_renameFile hrename
  have hgains := d.gainsAlong_of_makeDirectories target.parent
  rw [hmake] at hgains
  obtain ⟨before, hbefore, -⟩ := Disk.not_passesOver_source hw (stat_of_file hfile hpath)
  have hsame := hgains.includes.place? hgains.current hbefore
  obtain rfl : before = origin := Option.some.inj (hsame.symm.trans horigin)
  obtain ⟨hdirs, hchanged⟩ := renamed_of_gains hgains.toGains hdir hfree
  obtain ⟨lost, hlost, hchain⟩ := (d₀.renamed before place).removeDirectories_chain (dir.parents p)
  refine ⟨p, target, before, place, d₀, _, hpath, htarget, hbefore, hplace, hmake, hgains, rfl,
    ⟨lost, hlost, hchain⟩, fun hlink => ?_⟩
  have hc : (d₀.renamed before place).current = d.current :=
    (d₀.current_renamed before place).trans hgains.current
  refine removesEmptied_of_steady hpath hbefore hc hdirs fun q hq x hx => ?_
  have hparent := List.mem_of_mem_take hq
  obtain ⟨found, hfound⟩ := Option.isSome_iff_exists.mp (above_steady hpath hbefore hparent).1
  rcases hchanged x hx with rfl | rfl | hnone
  · exact source_steady hw hpath hfile hbefore hparent
  · rcases hat : d.at? x with _ | ⟨_ | other | link⟩
    · exact Disk.not_passesOver_none hfound hat
    · exact absurd (hgains.includes x _ hat) hfree
    · exact Disk.not_passesOver_file hw hfound hat
    · exact hlink link hat q hq
  · exact Disk.not_passesOver_none hfound hnone

/-! ## Trees with links -/

/-- A file two directories deep, beside an empty directory and a link to a directory. -/
def deepTree : Disk where
  entries := ⟨[(namesOf ["srv"], .directory), (namesOf ["srv", "a"], .directory),
    (namesOf ["srv", "a", "b"], .directory),
    (namesOf ["srv", "a", "b", "f"], .file ⟨0, [1], ⟨0⟩, ⟨0⟩⟩),
    (namesOf ["srv", "e"], .directory), (namesOf ["srv", "l"], .link (.ofText "a"))]⟩
  fresh := 1

/-- The file is removed, or moved into one of the directories on the way to it. -/
theorem removes_emptied_directories_of_deepTree :
    deepTree.Whole ∧
      (∃ d', topDirectory.remove ⟨["a", "b", "f"]⟩ deepTree = (.ok (), d') ∧
        d' = (deepTree.erase (namesOf ["srv", "a", "b", "f"])).eraseAll
          [namesOf ["srv", "a", "b"], namesOf ["srv", "a"]]) ∧
      ∃ d', topDirectory.move ⟨["a", "b", "f"]⟩ ⟨["a", "g"]⟩ deepTree = (.ok (), d') ∧
        d' = (deepTree.renamed (namesOf ["srv", "a", "b", "f"])
            (namesOf ["srv", "a", "g"])).eraseAll
          [namesOf ["srv", "a", "b"]] := by
  have hw : deepTree.Whole := by decide +kernel
  have hpath : topDirectory.path ⟨["a", "b", "f"]⟩ = .ok (.ofText "/srv/a/b/f") := by
    decide +kernel
  have hplace : deepTree.place? (.ofText "/srv/a/b/f") = some (namesOf ["srv", "a", "b", "f"]) := by
    decide +kernel
  refine ⟨hw, ⟨_, rfl, ?_⟩, ⟨_, rfl, ?_⟩⟩
  · obtain ⟨p, place, hp, hplace', hprunes⟩ :=
      (removes_emptied_directories topDirectory hw).1 ⟨["a", "b", "f"]⟩ _ rfl
    obtain rfl := Except.ok.inj (hpath.symm.trans hp)
    obtain rfl := Option.some.inj (hplace.symm.trans hplace')
    exact hprunes.all.mpr (by decide +kernel)
  · obtain ⟨p, target, origin, place, d₀, d₁, hp, htarget, horigin, hgoal, hmake, -, rfl, -,
      hprunes⟩ := (removes_emptied_directories topDirectory hw).2 ⟨["a", "b", "f"]⟩ ⟨["a", "g"]⟩ _
        (by decide) rfl
    have hto : topDirectory.path ⟨["a", "g"]⟩ = .ok (.ofText "/srv/a/g") := by decide +kernel
    have hmade : deepTree.makeDirectories (.ofText "/srv/a") = (.ok (), deepTree) := rfl
    have hfree : deepTree.place? (.ofText "/srv/a/g") = some (namesOf ["srv", "a", "g"]) := by
      decide +kernel
    obtain rfl := Except.ok.inj (hpath.symm.trans hp)
    obtain rfl := Except.ok.inj (hto.symm.trans htarget)
    obtain rfl := (Prod.mk.inj (hmade.symm.trans hmake)).2
    obtain rfl := Option.some.inj (hplace.symm.trans horigin)
    obtain rfl := Option.some.inj (hfree.symm.trans hgoal)
    have hnone : deepTree.at? (namesOf ["srv", "a", "g"]) = none := by decide +kernel
    refine (hprunes ?_).all.mpr (by decide +kernel)
    intro link hlink
    rw [hnone] at hlink
    cases hlink

/-- A link that leads over the directory that is removed first: the one above it is empty then, but
its path leads nowhere any more, so it stays. -/
example :
    let d : Disk :=
      { entries := ⟨[(namesOf ["srv"], .directory), (namesOf ["srv", "d"], .directory),
          (namesOf ["srv", "d", "y"], .directory), (namesOf ["srv", "d", "y", "x"], .directory),
          (namesOf ["srv", "d", "y", "x", "f"], .file ⟨0, [1], ⟨0⟩, ⟨0⟩⟩),
          (namesOf ["srv", "m"], .link (.ofText "d/y/x/../.."))]⟩, fresh := 1 }
    (topDirectory.remove ⟨["m", "y", "x", "f"]⟩ d).2 =
      (d.erase (namesOf ["srv", "d", "y", "x", "f"])).erase (namesOf ["srv", "d", "y", "x"]) := by
  decide +kernel

/-- A link to a directory, and in that a file and a link to it. The name in that link is in the root
the name of a directory, too. -/
def crossedTree : Disk where
  entries := ⟨[(namesOf ["srv"], .directory), (namesOf ["srv", "d"], .directory),
    (namesOf ["srv", "d", "a"], .directory), (namesOf ["srv", "d", "a", "k"], .link (.ofText "x")),
    (namesOf ["srv", "d", "a", "x"], .file ⟨0, [1], ⟨0⟩, ⟨0⟩⟩),
    (namesOf ["srv", "l"], .link (.ofText "d")), (namesOf ["srv", "x"], .directory),
    (namesOf ["srv", "x", "a"], .directory)]⟩
  fresh := 1

/-- The link to the file is put in place of the link on the way to it. The path of the directory
that it stood in leads to another one then, which is removed, though nothing is left empty. -/
theorem other_directory_removed :
    ∃ d₁ d', topDirectory.move ⟨["l", "a", "k"]⟩ ⟨["l"]⟩ crossedTree = (.ok (), d') ∧
      d₁ = crossedTree.renamed (namesOf ["srv", "d", "a", "k"]) (namesOf ["srv", "l"]) ∧
      topDirectory.leftEmpty crossedTree d₁ ⟨["l", "a", "k"]⟩ = [] ∧
      crossedTree.at? (namesOf ["srv", "x", "a"]) = some .directory ∧
      d' = d₁.erase (namesOf ["srv", "x", "a"]) ∧ d' ≠ d₁ := by
  refine ⟨_, _, rfl, rfl, ?_, ?_, ?_, ?_⟩
  · decide +kernel
  · decide +kernel
  · decide +kernel
  · decide +kernel

end Directory

end BlobStore
