import BlobStore.Directory
import BlobStore.Proofs.Disk.Sound
import BlobStore.Proofs.Disk.Tree
import BlobStore.Proofs.Key
import Mathlib.Data.Finset.Card

/-!
# Going through the directories below a place

A listing comes to whatever stands at the end of a way through directories, since it follows no
link. What is still to come of it is what stands below a pending directory, so after each directory
that is read the files found are those that stand below none of those that are pending. No pending
directory stands below another one, so each directory is read once, and there are no more of them
than entries on the disk and the place itself.

## Main definitions

* `Disk.Through`: a way through directories
* `Directory.Shows`: what a listing comes to
* `Sweep.ofWays`: a sweep by its ways
* `Sweep.Tracks`: the invariant of a sweep

## Main results

* `Sweep.Tracks.advance`: a directory that is read keeps the invariant
* `Sweep.run_ofWays`: a sweep comes to its end, or to a directory that cannot be read
* `Sweep.run_start`: what a sweep from a directory finds
-/

namespace BlobStore

namespace Disk

/-- All that a way from a place passes are directories, the place itself included. -/
def Through (d : Disk) (place : Place) (way : List FileName) : Prop :=
  ∀ front more, front ++ more = way → more ≠ [] → d.at? (place ++ front) = some .directory

end Disk

namespace Directory

/-- Whether a listing under `scope` leaves out what stands at the end of `way`. -/
def isHidden (scope : Key) (way : Place) : Bool := scope.isRoot && way.head? == some draftsName

/-- What a listing under `scope` comes to from a directory: the entry at the end of a way through
directories, which does not lead to the drafts. -/
structure Shows (d : Disk) (scope : Key) (place : Place) (way : List FileName) (entry : DiskEntry) :
    Prop where
  through : d.Through place way
  shown : isHidden scope way = false
  at? : d.at? (place ++ way) = some entry

variable {d : Disk} {scope : Key} {place : Place} {way more : List FileName} {name : FileName}
  {entry : DiskEntry}

/-! ## Ways -/

@[simp] theorem isHidden_nil (scope : Key) : isHidden scope [] = false := by
  simp [isHidden]

/-- Only the name of the drafts is read as it is. -/
theorem lossy_eq_lossy_draftsName : name.lossy = draftsName.lossy ↔ name = draftsName :=
  FileName.lossy_eq_iff (by decide +kernel)

/-- Only the first name of a way can hide it. -/
theorem isHidden_append (hne : way ≠ []) : isHidden scope (way ++ more) = isHidden scope way := by
  unfold isHidden
  rw [List.head?_append_of_ne_nil _ hne]

/-- What is passed over in a directory is what a listing leaves out. -/
theorem isHidden_concat (h : isHidden scope way = false) :
    isHidden scope (way ++ [name]) =
      ((scope.join (.ofNames way)).isRoot && decide (name = draftsName)) := by
  by_cases hway : way = []
  · subst hway
    simp [isHidden, Key.join, Key.isRoot, Key.ofNames, Bool.beq_eq_decide_eq]
  · rw [isHidden_append hway, h]
    simp [Key.join, Key.isRoot, Key.ofNames, hway]

namespace Shows

theorem nil (hdir : d.at? place = some .directory) : Shows d scope place [] .directory where
  through front more he hne := absurd (List.append_eq_nil_iff.mp he).2 hne
  shown := isHidden_nil scope
  at? := by rw [List.append_nil, hdir]

/-- A listing comes to a directory through directories only. -/
theorem directories (h : Shows d scope place way .directory) {front : List FileName}
    (hp : front <+: way) : d.at? (place ++ front) = some .directory := by
  obtain ⟨rest, rfl⟩ := hp
  by_cases hrest : rest = []
  · subst hrest
    simpa using h.at?
  · exact h.through front rest rfl hrest

/-- A file is not the directory that the way starts from. -/
theorem ne_nil {file : DiskFile} (h : Shows d scope place way (.file file))
    (hdir : d.at? place = some .directory) : way ≠ [] := by
  rintro rfl
  have hat := h.at?
  rw [List.append_nil, hdir] at hat
  cases hat

/-- From a directory a listing comes to what stands in it. -/
theorem concat (h : Shows d scope place way .directory)
    (hat : d.at? (place ++ (way ++ [name])) = some entry)
    (hshown : isHidden scope (way ++ [name]) = false) :
    Shows d scope place (way ++ [name]) entry where
  through front more he hne := by
    obtain ⟨init, last, rfl⟩ := List.eq_nil_or_concat' more |>.resolve_left hne
    rw [← List.append_assoc] at he
    obtain ⟨hfront, -⟩ := List.append_inj' he rfl
    by_cases hinit : init = []
    · subst hinit
      rw [List.append_nil] at hfront
      rw [hfront, h.at?]
    · exact h.through front init hfront hinit
  shown := hshown
  at? := hat

/-- On the way to what it shows, a listing comes to a directory, or to the end of the way. -/
theorem next (h : Shows d scope place (way ++ name :: more) entry) :
    ∃ e, Shows d scope place (way ++ [name]) e ∧ (more ≠ [] → e = .directory) ∧
      (more = [] → e = entry) := by
  have hsplit : way ++ name :: more = way ++ [name] ++ more := by simp
  rw [hsplit] at h
  by_cases hmore : more = []
  · subst hmore
    rw [List.append_nil] at h
    exact ⟨entry, h, fun hne => absurd rfl hne, fun _ => rfl⟩
  · refine ⟨.directory, ⟨?_, ?_, ?_⟩, fun _ => rfl, fun he => absurd he hmore⟩
    · intro front rest he hne
      exact h.through front (rest ++ more) (by rw [← List.append_assoc, he]) (by simp [hne])
    · rw [← isHidden_append (by simp), h.shown]
    · exact h.through (way ++ [name]) more rfl hmore

end Shows

/-- A listing comes to nothing but the place itself and what stands below. -/
theorem mem_of_shows (hs : d.Sound) (h : Shows d scope place way entry) :
    way ∈ ([] :: (d.below place).map (·.1)).toFinset := by
  rw [List.mem_toFinset, List.mem_cons]
  by_cases hway : way = []
  · exact Or.inl hway
  · exact Or.inr (List.mem_map.mpr ⟨(way, entry), hs.mem_below.mpr ⟨hway, h.at?⟩, rfl⟩)

/-- Different ways that are texts have different keys, so these can be put in order. -/
theorem sort_join_pairwise (scope : Key) {ways : List Place} (h : ways.Nodup)
    (htexts : ∀ way ∈ ways, ∃ key : Key, key.names = way) :
    (Key.sort (ways.map (scope.join <| .ofNames ·))).Pairwise (· < ·) := by
  refine Key.sort_pairwise_lt (List.Nodup.map_on ?_ h)
  intro way hway other hother he
  obtain ⟨key, rfl⟩ := htexts way hway
  obtain ⟨key', rfl⟩ := htexts other hother
  rw [Key.ofNames_names, Key.ofNames_names] at he
  rw [Key.ext_segments (List.append_cancel_left (congrArg Key.segments he))]

theorem card_below_le (d : Disk) (place : Place) :
    ([] :: (d.below place).map (·.1)).toFinset.card ≤ d.entries.size + 1 := by
  refine (List.toFinset_card_le _).trans ?_
  rw [List.length_cons, List.length_map]
  exact Nat.succ_le_succ (List.length_filterMap_le _ _)

/-! ## What is met in a directory -/

/-- The ways to the entries of a directory that a listing comes to, of one kind. -/
def met (scope : Key) (way : List FileName) (kind : DiskEntry → Bool)
    (entries : List (FileName × DiskEntry)) : List Place :=
  entries.filterMap fun (name, entry) =>
    if kind entry && !isHidden scope (way ++ [name]) then some (way ++ [name]) else none

theorem met_singleton (scope : Key) (way : List FileName) (kind : DiskEntry → Bool)
    (name : FileName)
    (entry : DiskEntry) : met scope way kind [(name, entry)] =
      if kind entry && !isHidden scope (way ++ [name]) then [way ++ [name]] else [] := by
  unfold met
  rw [List.filterMap_cons, List.filterMap_nil]
  dsimp only
  split_ifs <;> rfl

theorem met_cons (scope : Key) (way : List FileName) (kind : DiskEntry → Bool)
    (first : FileName × DiskEntry) (rest : List (FileName × DiskEntry)) :
    met scope way kind (first :: rest) =
      met scope way kind [first] ++ met scope way kind rest :=
  List.filterMap_append (l := [first])

theorem mem_met {kind : DiskEntry → Bool} {entries : List (FileName × DiskEntry)} {other : Place} :
    other ∈ met scope way kind entries ↔
      ∃ name entry, (name, entry) ∈ entries ∧ kind entry ∧ isHidden scope (way ++ [name]) = false ∧
        way ++ [name] = other := by
  simp [met, List.mem_filterMap, and_assoc]

theorem nodup_met {entries : List (FileName × DiskEntry)} (hn : (entries.map (·.1)).Nodup)
    (kind : DiskEntry → Bool) : (met scope way kind entries).Nodup := by
  unfold met
  apply List.pairwise_filterMap.mpr
  apply (List.pairwise_map.mp hn).imp
  rintro ⟨name, entry⟩ ⟨name', entry'⟩ hne found hf found' hf' rfl
  simp only [Option.ite_none_right_eq_some, Option.some.injEq] at hf hf'
  exact hne (List.singleton_inj.mp (List.append_cancel_left (hf.2.trans hf'.2.symm)))

/-- Whether an entry is a directory. -/
def isDirectoryEntry : DiskEntry → Bool
  | .directory => true
  | _ => false

/-- Whether an entry is a file. -/
def isFileEntry : DiskEntry → Bool
  | .file _ => true
  | _ => false

namespace Sweep

/-- A sweep by the ways to what it has to read and to what it has found. -/
def ofWays (p : DiskPath) (scope : Key) (ways files : List Place) : Sweep where
  pending := ways.map fun way => (p.descend way, scope.join (.ofNames way))
  found := files.map fun way => scope.join (.ofNames way)

variable {p : DiskPath} {ways files : List Place} {entries : List (FileName × DiskEntry)}

/-- What one entry of a directory adds to a sweep. -/
theorem meet_ofWays (h : isHidden scope way = false) (name : FileName) (entry : DiskEntry)
    (ways files : List Place) :
    meet (p.descend way) (scope.join (.ofNames way)) (ofWays p scope ways files) (name, entry) =
      ofWays p scope (met scope way isDirectoryEntry [(name, entry)] ++ ways)
        (files ++ met scope way isFileEntry [(name, entry)]) := by
  have hchild : (p.descend way).child name = p.descend (way ++ [name]) :=
    (DiskPath.descend_concat p way name).symm
  have hkey : (scope.join (.ofNames way)).child name.lossy =
      scope.join (.ofNames (way ++ [name])) :=
    Key.ext_segments (by simp [Key.child, Key.join, Key.ofNames])
  rw [met_singleton, met_singleton, isHidden_concat h]
  dsimp only [meet]
  simp only [lossy_eq_lossy_draftsName]
  cases (scope.join (.ofNames way)).isRoot && decide (name = draftsName) with
  | true => simp
  | false => cases entry <;> simp [ofWays, isDirectoryEntry, isFileEntry, hchild, hkey]

/-- What the entries of a directory add to a sweep. -/
theorem foldl_meet (h : isHidden scope way = false) (entries : List (FileName × DiskEntry))
    (ways files : List Place) :
    entries.foldl (meet (p.descend way) (scope.join (.ofNames way))) (ofWays p scope ways files) =
      ofWays p scope ((met scope way isDirectoryEntry entries).reverse ++ ways)
        (files ++ met scope way isFileEntry entries) := by
  induction entries generalizing ways files with
  | nil => simp [met]
  | cons first rest ih =>
    have hone : (met scope way isDirectoryEntry [first]).reverse =
        met scope way isDirectoryEntry [first] := by
      rw [met_singleton]
      split_ifs <;> rfl
    rw [List.foldl_cons, meet_ofWays h, ih, met_cons scope way isDirectoryEntry first rest,
      met_cons scope way isFileEntry first rest, List.reverse_append, hone, List.append_assoc,
      List.append_assoc]

/-! ## The invariant -/

variable {read : DiskPath → Except DiskError (List (FileName × DiskEntry))}

/-- A sweep on its way: the files found are those that stand below no directory that is still to be
read, and the directories that stand below none of these have been read. -/
structure Tracks (read : DiskPath → Except DiskError (List (FileName × DiskEntry))) (p : DiskPath)
    (d : Disk) (scope : Key) (place : Place) (ways files : List Place) : Prop where
  shows : ∀ way ∈ ways, Shows d scope place way .directory
  apart : ways.Pairwise fun a b => ¬ a <+: b ∧ ¬ b <+: a
  nodup : files.Nodup
  mem_files : ∀ way, way ∈ files ↔
    (∃ file, Shows d scope place way (.file file)) ∧ ∀ front ∈ ways, ¬ front <+: way
  done : ∀ way, Shows d scope place way .directory → (∀ front ∈ ways, ¬ front <+: way) →
    ∃ entries, read (p.descend way) = .ok entries

theorem tracks_start (hdir : d.at? place = some .directory) :
    Tracks read p d scope place [[]] [] where
  shows way hw := by
    obtain rfl := List.mem_singleton.mp hw
    exact .nil hdir
  apart := List.pairwise_singleton _ _
  nodup := List.nodup_nil
  mem_files way := by simp
  done way _ hnot := absurd (List.nil_prefix) (hnot [] (List.mem_singleton_self []))

/-- Ways neither of which begins with the other are like that still when one goes on. -/
theorem not_prefix_concat {other : List FileName} (h : ¬ way <+: other) (h' : ¬ other <+: way) :
    ¬ way ++ [name] <+: other ∧ ¬ other <+: way ++ [name] := by
  refine ⟨fun hp => h ((List.prefix_append _ _).trans hp), fun hp => ?_⟩
  rcases List.prefix_concat_iff.mp hp with rfl | hp
  · exact h (List.prefix_append _ _)
  · exact h' hp

/-! ## One directory read -/

section

variable {other : Place} (hs : d.Sound) (hway : Shows d scope place way .directory)
  (hentries : entries.Perm (d.entriesIn (place ++ way)))

include hs hentries

theorem mem_entries_iff {name : FileName} {entry : DiskEntry} :
    (name, entry) ∈ entries ↔ d.at? (place ++ (way ++ [name])) = some entry := by
  rw [hentries.mem_iff, hs.mem_entriesIn, List.append_assoc]

theorem nodup_met_entries (kind : DiskEntry → Bool) : (met scope way kind entries).Nodup :=
  nodup_met ((hentries.map (·.1)).nodup_iff.mpr (hs.nodup_entriesIn _)) kind

/-- On the way to a directory below, or to what stands further below, the next directory is met. -/
theorem directory_met (h : Shows d scope place (way ++ name :: more) entry)
    (hdir : entry = .directory ∨ more ≠ []) :
    way ++ [name] ∈ met scope way isDirectoryEntry entries := by
  obtain ⟨e, he, hmore, hend⟩ := h.next
  refine mem_met.mpr ⟨name, e, (mem_entries_iff hs hentries).mpr he.at?, ?_, he.shown, rfl⟩
  by_cases hm : more = []
  · rw [hend hm, hdir.resolve_right (not_not_intro hm)]
    rfl
  · rw [hmore hm]
    rfl

/-- A directory below the directory, but below none in it, is the directory itself. -/
theorem eq_of_not_met (h : Shows d scope place other .directory) (hp : way <+: other)
    (hnot : ∀ front ∈ met scope way isDirectoryEntry entries, ¬ front <+: other) :
    other = way := by
  obtain ⟨rest, rfl⟩ := hp
  cases rest with
  | nil => exact List.append_nil way
  | cons name more =>
    exact absurd ⟨more, by simp⟩ (hnot _ (directory_met hs hentries h (Or.inl rfl)))

include hway

theorem shows_of_mem_met {kind : DiskEntry → Bool} (hm : other ∈ met scope way kind entries) :
    ∃ name entry, way ++ [name] = other ∧ kind entry ∧ Shows d scope place other entry := by
  obtain ⟨name, entry, hin, hkind, hshown, rfl⟩ := mem_met.mp hm
  exact ⟨name, entry, rfl, hkind, hway.concat ((mem_entries_iff hs hentries).mp hin) hshown⟩

theorem shows_directory_met (hm : other ∈ met scope way isDirectoryEntry entries) :
    (∃ name, way ++ [name] = other) ∧ Shows d scope place other .directory := by
  obtain ⟨name, entry, he, hkind, h⟩ := shows_of_mem_met hs hway hentries hm
  cases entry with
  | directory => exact ⟨⟨name, he⟩, h⟩
  | file file => cases hkind
  | link target => cases hkind

theorem shows_file_met (hm : other ∈ met scope way isFileEntry entries) :
    (∃ name, way ++ [name] = other) ∧ ∃ file, Shows d scope place other (.file file) := by
  obtain ⟨name, entry, he, hkind, h⟩ := shows_of_mem_met hs hway hentries hm
  cases entry with
  | directory => cases hkind
  | file file => exact ⟨⟨name, he⟩, file, h⟩
  | link target => cases hkind

/-- A file below the directory, but below no directory in it, is met there. -/
theorem file_met {file : DiskFile} (h : Shows d scope place other (.file file))
    (hp : way <+: other)
    (hnot : ∀ front ∈ met scope way isDirectoryEntry entries, ¬ front <+: other) :
    other ∈ met scope way isFileEntry entries := by
  obtain ⟨rest, rfl⟩ := hp
  cases rest with
  | nil =>
    have hat := h.at?
    rw [List.append_nil, hway.at?] at hat
    cases hat
  | cons name more =>
    by_cases hmore : more = []
    · subst hmore
      exact mem_met.mpr ⟨name, _, (mem_entries_iff hs hentries).mpr h.at?, rfl, h.shown, rfl⟩
    · exact absurd ⟨more, by simp⟩ (hnot _ (directory_met hs hentries h (Or.inr hmore)))

end

/-- Below no pending way: below none of the new ones, and below none of the others. -/
theorem mem_pending {other : Place} {new : List Place} :
    (∀ front ∈ new.reverse ++ ways, ¬ front <+: other) ↔
      (∀ front ∈ new, ¬ front <+: other) ∧ ∀ front ∈ ways, ¬ front <+: other := by
  simp only [List.mem_append, List.mem_reverse, or_imp, forall_and]

/-- **One directory.** When a pending directory is read, what stands in it is pending or found, and
it is pending no longer. -/
theorem Tracks.advance (h : Tracks read p d scope place (way :: ways) files) (hs : d.Sound)
    (hread : read (p.descend way) = .ok entries)
    (hentries : entries.Perm (d.entriesIn (place ++ way))) :
    Tracks read p d scope place ((met scope way isDirectoryEntry entries).reverse ++ ways)
      (files ++ met scope way isFileEntry entries) := by
  have hway : Shows d scope place way .directory := h.shows way List.mem_cons_self
  obtain ⟨hfirst, hrest⟩ := List.pairwise_cons.mp h.apart
  have hnew : ∀ {other}, other ∈ met scope way isDirectoryEntry entries →
      (∃ name, way ++ [name] = other) ∧ Shows d scope place other .directory :=
    shows_directory_met hs hway hentries
  refine ⟨?shows, ?apart, ?nodup, ?mem_files, ?done⟩
  case shows =>
    intro other ho
    rcases List.mem_append.mp ho with ho | ho
    · exact (hnew (List.mem_reverse.mp ho)).2
    · exact h.shows other (List.mem_cons_of_mem way ho)
  case apart =>
    refine List.pairwise_append.mpr ⟨List.pairwise_reverse.mpr ?_, hrest, ?_⟩
    · refine (nodup_met_entries hs hentries isDirectoryEntry).imp_of_mem ?_
      intro a b ha hb hne
      obtain ⟨⟨name, rfl⟩, -⟩ := hnew ha
      obtain ⟨⟨name', rfl⟩, -⟩ := hnew hb
      exact ⟨fun hp => hne (hp.eq_of_length (by simp)).symm,
        fun hp => hne (hp.eq_of_length (by simp))⟩
    · intro a ha b hb
      obtain ⟨⟨name, rfl⟩, -⟩ := hnew (List.mem_reverse.mp ha)
      exact not_prefix_concat (hfirst b hb).1 (hfirst b hb).2
  case nodup =>
    refine h.nodup.append (nodup_met_entries hs hentries isFileEntry) fun other ho hm => ?_
    obtain ⟨⟨name, rfl⟩, -⟩ := shows_file_met hs hway hentries hm
    exact ((h.mem_files _).mp ho).2 way List.mem_cons_self (List.prefix_append _ _)
  case mem_files =>
    intro other
    rw [List.mem_append, h.mem_files, List.forall_mem_cons, mem_pending]
    constructor
    · rintro (⟨hfile, hnot, hothers⟩ | hm)
      · refine ⟨hfile, fun front hf hp => ?_, hothers⟩
        obtain ⟨⟨name, rfl⟩, -⟩ := hnew hf
        exact hnot ((List.prefix_append _ _).trans hp)
      · obtain ⟨⟨name, rfl⟩, file, hfile⟩ := shows_file_met hs hway hentries hm
        refine ⟨⟨file, hfile⟩, fun front hf hp => ?_, fun front hf => ?_⟩
        · obtain ⟨⟨name', rfl⟩, hdir⟩ := hnew hf
          have hat := hdir.at?
          rw [hp.eq_of_length (by simp), hfile.at?] at hat
          cases hat
        · exact (not_prefix_concat (hfirst front hf).1 (hfirst front hf).2).2
    · rintro ⟨⟨file, hfile⟩, hnot, hothers⟩
      by_cases hp : way <+: other
      · exact Or.inr (file_met hs hway hentries hfile hp hnot)
      · exact Or.inl ⟨⟨file, hfile⟩, hp, hothers⟩
  case done =>
    intro other hdir hpending
    obtain ⟨hnot, hothers⟩ := mem_pending.mp hpending
    by_cases hp : way <+: other
    · obtain rfl := eq_of_not_met hs hentries hdir hp hnot
      exact ⟨entries, hread⟩
    · exact h.done other hdir (List.forall_mem_cons.mpr ⟨hp, hothers⟩)

/-! ## Runs -/

/-- The places that a listing still can come to. -/
def remaining (d : Disk) (place : Place) (ways : List Place) : Finset Place :=
  ([] :: (d.below place).map (·.1)).toFinset.filter fun way => ∃ front ∈ ways, front <+: way

/-- A pending directory is one of those that remain. -/
theorem mem_remaining (hs : d.Sound) (h : Shows d scope place way .directory) :
    way ∈ remaining d place (way :: ways) :=
  Finset.mem_filter.mpr ⟨mem_of_shows hs h, way, List.mem_cons_self, List.prefix_refl way⟩

/-- A directory that was read is not read again. -/
theorem remaining_lt (h : Tracks read p d scope place (way :: ways) files) (hs : d.Sound)
    (kind : DiskEntry → Bool) :
    (remaining d place ((met scope way kind entries).reverse ++ ways)).card <
      (remaining d place (way :: ways)).card := by
  obtain ⟨hfirst, -⟩ := List.pairwise_cons.mp h.apart
  have hnew : ∀ {front}, front ∈ (met scope way kind entries).reverse ++ ways →
      (∃ name, front = way ++ [name]) ∨ front ∈ ways := by
    intro front hf
    rcases List.mem_append.mp hf with hf | hf
    · obtain ⟨name, -, -, -, -, rfl⟩ := mem_met.mp (List.mem_reverse.mp hf)
      exact Or.inl ⟨name, rfl⟩
    · exact Or.inr hf
  apply Finset.card_lt_card
  refine Finset.ssubset_iff_of_subset ?subset |>.mpr
    ⟨way, mem_remaining hs (h.shows way List.mem_cons_self), ?gone⟩
  case subset =>
    intro other ho
    obtain ⟨hin, front, hf, hp⟩ := Finset.mem_filter.mp ho
    refine Finset.mem_filter.mpr ⟨hin, ?_⟩
    rcases hnew hf with ⟨name, rfl⟩ | hf
    · exact ⟨way, List.mem_cons_self, (List.prefix_append _ _).trans hp⟩
    · exact ⟨front, List.mem_cons_of_mem way hf, hp⟩
  case gone =>
    intro hin
    obtain ⟨-, front, hf, hp⟩ := Finset.mem_filter.mp hin
    rcases hnew hf with ⟨name, rfl⟩ | hf
    · simpa using hp.length_le
    · exact (hfirst front hf).2 hp

theorem run_done (read : DiskPath → Except DiskError (List (FileName × DiskEntry))) (n : Nat)
    (found : List Key) : run read n ⟨[], found⟩ = .ok ⟨[], found⟩ := by
  cases n <;> rfl

/-- **A run of a sweep.** Where each directory that a listing comes to is read, or is not for a
reason that does not say that it is missing, the sweep comes to its end or to such a directory. -/
theorem run_ofWays (hs : d.Sound)
    (hread : ∀ way, Shows d scope place way .directory →
      (∃ entries, read (p.descend way) = .ok entries ∧
        entries.Perm (d.entriesIn (place ++ way))) ∨
      ∃ e, read (p.descend way) = .error e ∧ e.isMissing = false)
    (n : Nat) (ways files : List Place) (h : Tracks read p d scope place ways files)
    (hn : (remaining d place ways).card ≤ n) :
    (∃ all, run read n (ofWays p scope ways files) = .ok (ofWays p scope [] all) ∧
      Tracks read p d scope place [] all) ∨
    ∃ way e, Shows d scope place way .directory ∧ read (p.descend way) = .error e ∧
      run read n (ofWays p scope ways files) = .error (failure (scope.join (.ofNames way)) e) := by
  induction n generalizing ways files with
  | zero =>
    cases ways with
    | nil => exact Or.inl ⟨files, run_done read 0 _, h⟩
    | cons way ways =>
      have hin : way ∈ remaining d place (way :: ways) :=
        mem_remaining hs (h.shows way List.mem_cons_self)
      exact absurd (Finset.card_pos.mpr ⟨way, hin⟩) (by omega)
  | succ n ih =>
    cases ways with
    | nil => exact Or.inl ⟨files, run_done read _ _, h⟩
    | cons way ways =>
      have hway : Shows d scope place way .directory := h.shows way List.mem_cons_self
      rcases hread way hway with ⟨entries, hok, hperm⟩ | ⟨e, he, hpresent⟩
      · have hstep : run read (n + 1) (ofWays p scope (way :: ways) files) =
            run read n (ofWays p scope ((met scope way isDirectoryEntry entries).reverse ++ ways)
              (files ++ met scope way isFileEntry entries)) := by
          rw [← foldl_meet hway.shown]
          simp only [ofWays, List.map_cons, run, hok]
        rw [hstep]
        exact ih _ _ (h.advance hs hok hperm)
          (Nat.le_of_lt_succ ((remaining_lt h hs isDirectoryEntry).trans_le hn))
      · refine Or.inr ⟨way, e, hway, he, ?_⟩
        simp [ofWays, run, he, hpresent]

/-- What a sweep from a directory comes to, if it reads as many directories as there are. -/
theorem run_start (hs : d.Sound) (hdir : d.at? place = some .directory)
    (hread : ∀ way, Shows d scope place way .directory →
      (∃ entries, read (p.descend way) = .ok entries ∧
        entries.Perm (d.entriesIn (place ++ way))) ∨
      ∃ e, read (p.descend way) = .error e ∧ e.isMissing = false)
    {n : Nat} (hn : d.entries.size < n) :
    (∃ all : List Place,
      run read n ⟨[(p, scope)], []⟩ = .ok ⟨[], all.map (scope.join <| .ofNames ·)⟩ ∧
      all.Nodup ∧ (∀ way, way ∈ all ↔ ∃ file, Shows d scope place way (.file file)) ∧
      ∀ way, Shows d scope place way .directory →
        ∃ entries, read (p.descend way) = .ok entries) ∨
    ∃ way e, Shows d scope place way .directory ∧ read (p.descend way) = .error e ∧
      run read n ⟨[(p, scope)], []⟩ = .error (failure (scope.join (.ofNames way)) e) := by
  have hstart : (⟨[(p, scope)], []⟩ : Sweep) = ofWays p scope [[]] [] := by
    have hscope : scope.join (.ofNames []) = scope := Key.ext_segments (List.append_nil _)
    simp [ofWays, DiskPath.descend, hscope]
  rw [hstart]
  have hfew : (remaining d place [[]]).card ≤ n :=
    (Finset.card_filter_le _ _).trans ((card_below_le d place).trans hn)
  refine (run_ofWays hs hread n [[]] [] (tracks_start hdir) hfew).imp ?_ id
  rintro ⟨all, hrun, h⟩
  refine ⟨all, hrun, h.nodup, fun way => ?_, fun way hshow => h.done way hshow (by simp)⟩
  rw [h.mem_files]
  simp

end Sweep

end Directory

end BlobStore
