import BlobStore.Proofs.Directory.Path
import BlobStore.Proofs.Directory.Sweep

/-!
# Listings of any tree

What stands below the root need not have been made by a storage: there may be empty directories, and
links that lead out, round in circles or nowhere. The path of a scope may pass links, but from the
directory that it leads to a listing follows none, so it ends, and it shows the keys of the files at
the ends of ways through directories, each once and in ascending order. In which order the names in
a directory are read makes no difference.

The path of a directory far down can be too long for it to be read. Then the whole listing fails.

## Main definitions

* `Disk.Named`: a disk all of whose entries have names that entries can have
* `Disk.ReadBy`: directories read in some order

## Main results

* `Directory.readDirectory_of_shows`: what is read of a directory that a listing comes to
* `Directory.list_any_tree`: the listings of a disk
-/

namespace BlobStore

namespace Disk

/-- A name that an entry can have. -/
def IsEntryName (name : FileName) : Prop :=
  DiskPath.IsName name ∧ isTooLong name = false ∧ name.hasNul = false

instance decidableIsEntryName (name : FileName) : Decidable (IsEntryName name) :=
  inferInstanceAs (Decidable (_ ∧ _ ∧ _))

/-- Whatever stands on a disk stands at names that entries can have. -/
def Named (d : Disk) : Prop :=
  ∀ place, (d.at? place).isSome → ∀ name ∈ place, IsEntryName name

theorem named_iff {d : Disk} :
    d.Named ↔ ∀ place ∈ d.entries.keys, ∀ name ∈ place, IsEntryName name := by
  refine forall_congr' fun place => ?_
  cases place with
  | nil => simp
  | cons name rest => rw [OrderedMap.mem_keys_iff]; rfl

instance decidableNamed (d : Disk) : Decidable d.Named := decidable_of_iff' _ named_iff

/-- Reads of directories in some order, which can be another one for each path. -/
def ReadBy (d : Disk) (read : DiskPath → Except DiskError (List (FileName × DiskEntry))) : Prop :=
  ∀ p,
    match d.readDirectory p with
    | .ok entries => ∃ listed, read p = .ok listed ∧ listed.Perm entries
    | .error e => read p = .error e

variable {d : Disk} {p : DiskPath} {place : Place} {names : List FileName}
  {read : DiskPath → Except DiskError (List (FileName × DiskEntry))}

theorem readBy_readDirectory (d : Disk) : d.ReadBy d.readDirectory := by
  intro p
  split
  · rename_i entries h
    exact ⟨entries, h, List.Perm.refl entries⟩
  · assumption

theorem ReadBy.ok (h : d.ReadBy read) {entries : List (FileName × DiskEntry)}
    (hp : d.readDirectory p = .ok entries) :
    ∃ listed, read p = .ok listed ∧ listed.Perm entries := by
  have hread := h p
  rw [hp] at hread
  exact hread

theorem ReadBy.error (h : d.ReadBy read) {e : DiskError} (hp : d.readDirectory p = .error e) :
    read p = .error e := by
  have hread := h p
  rw [hp] at hread
  exact hread

theorem readDirectory_of_refuse {e : DiskError} (h : refuse p = some e) :
    d.readDirectory p = .error e := by
  unfold readDirectory walk reach
  rw [h]

end Disk

namespace Directory

variable {d : Disk} {p : DiskPath} {dir : Directory} {scope : Key} {place : Place}
  {way : List FileName} {n : Nat}
  {read : DiskPath → Except DiskError (List (FileName × DiskEntry))}

/-! ## Directories on the way -/

/-- A directory that a listing comes to is read, unless its path is too long. -/
theorem readDirectory_of_shows (hl : d.Leads p place) (hn : d.Named)
    (h : Shows d scope place way .directory) :
    d.readDirectory (p.descend way) =
      if Disk.pathLimit ≤ (p.descend way).size then .error .nameTooLong
      else .ok (d.entriesIn (place ++ way)) := by
  have hnames : ∀ name ∈ way, Disk.IsEntryName name := fun name hm =>
    hn (place ++ way) (by rw [h.at?]; rfl) name (List.mem_append_right place hm)
  by_cases hway : way = []
  · subst hway
    obtain ⟨-, -, hsize⟩ := Disk.refuse_eq_none_iff.mp hl.accepted
    rw [DiskPath.descend_nil, if_neg (Nat.not_le_of_lt hsize), List.append_nil, hl.readDirectory]
  · have hrefuse := Disk.refuse_descend hl.accepted hway fun name hm =>
      ⟨(hnames name hm).1.1, (hnames name hm).2.2⟩
    split_ifs at hrefuse ⊢ with hlong
    · exact Disk.readDirectory_of_refuse hrefuse
    · have hadmits : Disk.Admits p way :=
        ⟨fun name hm => (hnames name hm).1, fun name hm => (hnames name hm).2.1, hrefuse⟩
      exact (hl.descend hadmits fun front _ hp => h.directories hp).readDirectory

/-! ## Listings -/

/-- What a sweep from a directory comes to, whatever the order of names: it finds all files there
are, or comes to a directory whose path is too long. -/
theorem run_any_tree (scope : Key) (hs : d.Sound) (hn : d.Named) (hread : d.ReadBy read)
    (hsize : d.entries.size < n) (hl : d.Leads p place) :
    (∃ all : List Place,
      Sweep.run read n ⟨[(p, scope)], []⟩ = .ok ⟨[], all.map (scope.join <| .ofNames ·)⟩ ∧
      all.Nodup ∧
      (∀ way, way ∈ all ↔ ∃ file, Shows d scope place way (.file file)) ∧
      ∀ way, Shows d scope place way .directory → (p.descend way).size < Disk.pathLimit) ∨
    ∃ way, Shows d scope place way .directory ∧ Disk.pathLimit ≤ (p.descend way).size ∧
      Sweep.run read n ⟨[(p, scope)], []⟩ =
        .error (failure (scope.join (.ofNames way)) .nameTooLong) := by
  have hcases : ∀ way, Shows d scope place way .directory →
      ((p.descend way).size < Disk.pathLimit ∧ ∃ entries, read (p.descend way) = .ok entries ∧
        entries.Perm (d.entriesIn (place ++ way))) ∨
      (Disk.pathLimit ≤ (p.descend way).size ∧ read (p.descend way) = .error .nameTooLong) := by
    intro way h
    have hway := readDirectory_of_shows hl hn h
    split_ifs at hway with hlong
    · exact Or.inr ⟨hlong, hread.error hway⟩
    · exact Or.inl ⟨Nat.lt_of_not_le hlong, hread.ok hway⟩
  rcases Sweep.run_start hs hl.directory
    (fun way h => (hcases way h).imp (·.2) fun hlong => ⟨_, hlong.2, rfl⟩) hsize with
    ⟨all, hrun, hnodup, hall, hdone⟩ | ⟨way, e, h, he, hrun⟩
  · refine Or.inl ⟨all, hrun, hnodup, hall, fun way h => ?_⟩
    rcases hcases way h with ⟨hshort, -⟩ | ⟨-, he⟩
    · exact hshort
    · obtain ⟨entries, hok⟩ := hdone way h
      rw [he] at hok
      cases hok
  · rcases hcases way h with ⟨-, entries, hok, -⟩ | ⟨hlong, hway⟩
    · rw [he] at hok
      cases hok
    · rw [he] at hway
      cases hway
      exact Or.inr ⟨way, h, hlong, hrun⟩

theorem listBy_of_leads (hpath : dir.path scope = .ok p) (hl : d.Leads p place) :
    dir.listBy read n scope d =
      (Sweep.run read n ⟨[(p, scope)], []⟩).map fun swept => Key.sort swept.found := by
  unfold listBy
  rw [hpath]
  cases hrun : Sweep.run read n ⟨[(p, scope)], []⟩ <;> simp [hl.stat, hrun, Except.map]

/-- What a listing under `scope` shows of a directory: the keys of the files at the ends of `ways`
through directories, one for each, in ascending order. The key of a way has its names as texts. -/
structure ShowsAll (d : Disk) (scope : Key) (place : Place) (ways : List Place) (keys : List Key) :
    Prop where
  nodup : ways.Nodup
  mem_ways : ∀ way, way ∈ ways ↔ way ≠ [] ∧ ∃ file, Shows d scope place way (.file file)
  perm : keys.Perm (ways.map (scope.join <| .ofNames ·))
  ascending : keys.Pairwise (· ≤ ·)

/-- If all names on the ways to files are texts, the keys are those of the files, each once. -/
theorem ShowsAll.once {ways : List Place} {keys : List Key}
    (h : ShowsAll d scope place ways keys)
    (htexts : ∀ way, (∃ file, Shows d scope place way (.file file)) → ∃ q : Key, q.names = way) :
    keys.Pairwise (· < ·) ∧
      ∀ key, key ∈ keys ↔ ∃ q : Key, q.names ≠ [] ∧
        (∃ file, Shows d scope place q.names (.file file)) ∧ scope.join q = key := by
  refine ⟨?_, fun key => ?_⟩
  · have hkeys : keys = Key.sort (ways.map (scope.join <| .ofNames ·)) :=
      List.Perm.eq_of_pairwise (fun _ _ _ _ => Key.le_antisymm) h.ascending (Key.sort_pairwise _)
        (h.perm.trans (Key.sort_perm _).symm)
    rw [hkeys]
    exact sort_join_pairwise scope h.nodup fun way hm => htexts way ((h.mem_ways way).mp hm).2
  · rw [h.perm.mem_iff, List.mem_map]
    constructor
    · rintro ⟨way, hm, rfl⟩
      obtain ⟨hway, hfile⟩ := (h.mem_ways way).mp hm
      obtain ⟨q, rfl⟩ := htexts way hfile
      exact ⟨q, hway, hfile, by rw [Key.ofNames_names]⟩
    · rintro ⟨q, hway, hfile, rfl⟩
      exact ⟨q.names, (h.mem_ways _).mpr ⟨hway, hfile⟩, by rw [Key.ofNames_names]⟩

/-- Where all directories can be read, a listing shows all files in order. -/
theorem listBy_eq_ok (hs : d.Sound) (hn : d.Named) (hread : d.ReadBy read)
    (hsize : d.entries.size < n) (hpath : dir.path scope = .ok p) (hl : d.Leads p place)
    (hshort : ∀ way, Shows d scope place way .directory →
      (p.descend way).size < Disk.pathLimit) :
    ∃ keys ways, dir.listBy read n scope d = .ok keys ∧ ShowsAll d scope place ways keys ∧
      ∃ found, Sweep.run read n ⟨[(p, scope)], []⟩ = .ok ⟨[], found⟩ := by
  rcases run_any_tree scope hs hn hread hsize hl with
    ⟨all, hrun, hnodup, hall, -⟩ | ⟨way, h, hlong, -⟩
  · refine ⟨Key.sort (all.map (scope.join <| .ofNames ·)), all, ?_, ⟨hnodup, fun way => ?_,
      Key.sort_perm _, Key.sort_pairwise _⟩, _, hrun⟩
    · rw [listBy_of_leads hpath hl, hrun]
      rfl
    · rw [hall]
      exact ⟨fun ⟨file, h⟩ => ⟨h.ne_nil hl.directory, file, h⟩, fun h => h.2⟩
  · exact absurd (hshort way h) (Nat.not_lt_of_le hlong)

/-- Where a directory cannot be read, a listing fails with the key of such a directory. -/
theorem listBy_eq_error (hs : d.Sound) (hn : d.Named) (hread : d.ReadBy read)
    (hsize : d.entries.size < n) (hpath : dir.path scope = .ok p) (hl : d.Leads p place)
    (h : Shows d scope place way .directory) (hlong : Disk.pathLimit ≤ (p.descend way).size) :
    ∃ way, Shows d scope place way .directory ∧ Disk.pathLimit ≤ (p.descend way).size ∧
      dir.listBy read n scope d = .error (failure (scope.join (.ofNames way)) .nameTooLong) := by
  rcases run_any_tree scope hs hn hread hsize hl with
    ⟨all, -, -, -, hshort⟩ | ⟨way, h, hlong, hrun⟩
  · exact absurd (hshort way h) (Nat.not_lt_of_le hlong)
  · refine ⟨way, h, hlong, ?_⟩
    rw [listBy_of_leads hpath hl, hrun]
    rfl

/-- **Listings of any tree.** If the path of a scope leads to a directory, a listing under it ends;
it shows the keys of the files at the ends of ways through directories, but for the drafts under the
root, one for each way and in ascending order, as long as each directory on these ways has a path
that can be read, and fails with the key of one that has not. If the names on the ways are texts,
these are the keys of the files, each once. If nothing is there, or no directory, the listing is
empty. -/
theorem list_any_tree (hs : d.Sound) (hn : d.Named) (hread : d.ReadBy read)
    (hsize : d.entries.size < n) (hpath : dir.path scope = .ok p) :
    (∀ place, d.walk p = .ok place → d.at? place = some .directory →
      ((∀ way, Shows d scope place way .directory → (p.descend way).size < Disk.pathLimit) →
        ∃ keys ways, dir.listBy read n scope d = .ok keys ∧ ShowsAll d scope place ways keys ∧
          ((∀ way, (∃ file, Shows d scope place way (.file file)) → ∃ q : Key, q.names = way) →
            keys.Pairwise (· < ·) ∧ ∀ key, key ∈ keys ↔ ∃ q : Key, q.names ≠ [] ∧
              (∃ file, Shows d scope place q.names (.file file)) ∧ scope.join q = key) ∧
          ∃ found, Sweep.run read n ⟨[(p, scope)], []⟩ = .ok ⟨[], found⟩) ∧
      ∀ way, Shows d scope place way .directory → Disk.pathLimit ≤ (p.descend way).size →
        ∃ way, Shows d scope place way .directory ∧ Disk.pathLimit ≤ (p.descend way).size ∧
          dir.listBy read n scope d = .error (failure (scope.join (.ofNames way)) .nameTooLong)) ∧
    (∀ e, d.stat p = .error e → e.isMissing → dir.listBy read n scope d = .ok []) ∧
    ∀ entry, d.stat p = .ok entry → entry ≠ .directory → dir.listBy read n scope d = .ok [] := by
  refine ⟨fun place hwalk hdir => ?_, fun e hstat hmissing => ?_, fun entry hstat hentry => ?_⟩
  · have hl : d.Leads p place := Disk.leads_of_walk hwalk hdir
    refine ⟨fun hshort => ?_,
      fun way h hlong => listBy_eq_error hs hn hread hsize hpath hl h hlong⟩
    obtain ⟨keys, ways, hlist, hall, hrun⟩ := listBy_eq_ok hs hn hread hsize hpath hl hshort
    exact ⟨keys, ways, hlist, hall, hall.once, hrun⟩
  · unfold listBy
    rw [hpath]
    simp only [hstat, hmissing, if_true]
  · unfold listBy
    rw [hpath]
    cases entry with
    | directory => exact absurd rfl hentry
    | file file => simp only [hstat]
    | link target => simp only [hstat]

/-! ## A tree with links -/

/-- Files in the root, among the drafts and below a directory, an empty directory, and links to a
directory, to themselves and to nothing. -/
def linkedTree : Disk where
  entries := ⟨[(namesOf ["srv"], .directory), (namesOf ["srv", ".tmp"], .directory),
    (namesOf ["srv", ".tmp", "7-0"], .file ⟨0, [1], ⟨0⟩, ⟨0⟩⟩),
    (namesOf ["srv", "a"], .directory), (namesOf ["srv", "a", ".tmp"], .directory),
    (namesOf ["srv", "a", ".tmp", "k"], .file ⟨1, [2], ⟨0⟩, ⟨0⟩⟩),
    (namesOf ["srv", "b"], .file ⟨2, [3], ⟨0⟩, ⟨0⟩⟩), (namesOf ["srv", "e"], .directory),
    (namesOf ["srv", "l"], .link (.ofText "a")),
    (namesOf ["srv", "loop"], .link (.ofText "../srv/loop")),
    (namesOf ["srv", "lost"], .link (.ofText "/nowhere"))]⟩
  fresh := 3

theorem sound_linkedTree : linkedTree.Sound := by
  refine Disk.sound_iff.mpr ⟨by unfold OrderedMap.Sorted; decide +kernel, by decide +kernel, ?_⟩
  simp [linkedTree]

/-- The scope is a link, so it is followed; the drafts are left out under the root only. -/
theorem list_linkedTree :
    linkedTree.Sound ∧ linkedTree.Named ∧ topDirectory.path ⟨["l"]⟩ = .ok (.ofText "/srv/l") ∧
      linkedTree.walk (.ofText "/srv/l") = .ok (namesOf ["srv", "a"]) ∧
      linkedTree.at? (namesOf ["srv", "a"]) = some .directory ∧
      (∀ way, Shows linkedTree ⟨["l"]⟩ (namesOf ["srv", "a"]) way .directory →
        ((DiskPath.ofText "/srv/l").descend way).size < Disk.pathLimit) ∧
      ∃ keys, topDirectory.list ⟨["l"]⟩ linkedTree = .ok keys ∧ keys.Pairwise (· < ·) ∧
        ∀ key, key ∈ keys ↔ ∃ q : Key, q.names ≠ [] ∧
          (∃ file, Shows linkedTree ⟨["l"]⟩ (namesOf ["srv", "a"]) q.names (.file file)) ∧
            Key.join ⟨["l"]⟩ q = key := by
  have hnamed : linkedTree.Named := by decide +kernel
  have hpath : topDirectory.path ⟨["l"]⟩ = .ok (.ofText "/srv/l") := by decide +kernel
  have hwalk : linkedTree.walk (.ofText "/srv/l") = .ok (namesOf ["srv", "a"]) := by decide +kernel
  have hat : linkedTree.at? (namesOf ["srv", "a"]) = some .directory := by decide +kernel
  have hways : ∀ way ∈ ([] :: (linkedTree.below (namesOf ["srv", "a"])).map (·.1)).toFinset,
      ((DiskPath.ofText "/srv/l").descend way).size < Disk.pathLimit ∧
        (Key.ofNames way).names = way := by decide +kernel
  have hfits : ∀ way, Shows linkedTree ⟨["l"]⟩ (namesOf ["srv", "a"]) way .directory →
      ((DiskPath.ofText "/srv/l").descend way).size < Disk.pathLimit :=
    fun way h => (hways way (mem_of_shows sound_linkedTree h)).1
  obtain ⟨hdir, -⟩ := list_any_tree sound_linkedTree hnamed linkedTree.readBy_readDirectory
    (Nat.lt_succ_self _) hpath
  obtain ⟨keys, ways, hlist, -, honce, -⟩ := (hdir _ hwalk hat).1 hfits
  obtain ⟨hsorted, hkeys⟩ := honce fun way ⟨_, h⟩ =>
    ⟨.ofNames way, (hways way (mem_of_shows sound_linkedTree h)).2⟩
  exact ⟨sound_linkedTree, hnamed, hpath, hwalk, hat, hfits, keys, hlist, hsorted, hkeys⟩

example :
    topDirectory.list Key.root linkedTree = .ok [⟨["a", ".tmp", "k"]⟩, ⟨["b"]⟩] ∧
      topDirectory.list ⟨["l"]⟩ linkedTree = .ok [⟨["l", ".tmp", "k"]⟩] := by
  decide +kernel

/-! ## Directories too deep -/

/-- Directories one in the other, in the one for the root. -/
def nested (names : List FileName) : Disk where
  entries := ⟨names.inits.map fun way => (.text "srv" :: way, .directory)⟩

section

variable {names : List FileName}

theorem pairwise_inits (names : List FileName) : names.inits.Pairwise (· < ·) := by
  induction names with
  | nil => exact List.pairwise_singleton _ _
  | cons name names ih =>
    rw [List.inits]
    refine List.pairwise_cons.mpr ⟨?_, List.pairwise_map.mpr (ih.imp ?_)⟩
    · intro way hm
      obtain ⟨rest, -, rfl⟩ := List.mem_map.mp hm
      exact List.nil_lt_cons name rest
    · intro way way' hlt
      exact List.cons_lt_cons_self.mpr hlt

theorem sound_nested (names : List FileName) : (nested names).Sound := by
  refine Disk.sound_iff.mpr ⟨?_, ?_, by simp [nested]⟩
  · unfold OrderedMap.Sorted OrderedMap.keys nested
    rw [List.map_map]
    exact List.pairwise_map.mpr
      ((pairwise_inits names).imp fun hlt => List.cons_lt_cons_self.mpr hlt)
  · have hkeys : [] ∉ (nested names).entries.keys := by simp [nested, OrderedMap.keys]
    rwa [OrderedMap.mem_keys_iff, Option.not_isSome_iff_eq_none] at hkeys

/-- The beginnings of the names lead to what stands there. -/
theorem at?_nested {place : Place} {entry : DiskEntry} (hne : place ≠ []) :
    (nested names).at? place = some entry ↔
      ∃ way, way <+: names ∧ place = .text "srv" :: way ∧ entry = .directory := by
  rw [Disk.at?_of_ne_nil hne, ← (sound_nested names).sorted.mem_entries_iff]
  simp [nested, eq_comm]

theorem named_nested (hn : ∀ name ∈ names, Disk.IsEntryName name) : (nested names).Named := by
  intro place hsome name hm
  obtain ⟨entry, hat⟩ := Option.isSome_iff_exists.mp hsome
  obtain ⟨way, hway, rfl, -⟩ := (at?_nested (List.ne_nil_of_mem hm)).mp hat
  rcases List.mem_cons.mp hm with rfl | hm
  · decide
  · exact hn name (hway.subset hm)

theorem walk_nested (names : List FileName) :
    (nested names).walk topDirectory.rootPath = .ok [.text "srv"] := by
  have hat : (nested names).at? ([] ++ [.text "srv"]) = some .directory :=
    (at?_nested (by simp)).mpr ⟨[], List.nil_prefix, rfl, rfl⟩
  have hpath : Disk.refuse topDirectory.rootPath = none ∧
      topDirectory.rootPath.steps = [.text "srv"] ∧
      topDirectory.rootPath.absolute := by decide +kernel
  unfold Disk.walk Disk.reach Disk.start
  rw [hpath.1, hpath.2.1, if_pos hpath.2.2]
  dsimp only
  rw [Disk.strides_cons, Disk.turn_name (by decide) (by decide) (by rw [hat]; simp), hat]
  simp

/-- If the path of the last directory is too long, the root cannot be listed. -/
theorem list_nested (hn : ∀ name ∈ names, Disk.IsEntryName name)
    (hshown : names.head? ≠ some draftsName)
    (hlong : Disk.pathLimit ≤ (topDirectory.rootPath.descend names).size) :
    ∃ key, topDirectory.list Key.root (nested names) = .error (failure key .nameTooLong) := by
  have hdir : ∀ {way}, way <+: names →
      (nested names).at? ([.text "srv"] ++ way) = some .directory :=
    fun hp => (at?_nested (by simp)).mpr ⟨_, hp, rfl, rfl⟩
  have hl : (nested names).Leads topDirectory.rootPath [.text "srv"] :=
    Disk.leads_of_walk (walk_nested names) (hdir List.nil_prefix)
  have hlast : Shows (nested names) Key.root [.text "srv"] names .directory := by
    refine ⟨fun front more he _ => hdir ⟨more, he⟩, ?_, hdir (List.prefix_refl names)⟩
    simp [isHidden, hshown]
  obtain ⟨way, -, -, he⟩ := listBy_eq_error (sound_nested names) (named_nested hn)
    (nested names).readBy_readDirectory (Nat.lt_succ_self _) rfl hl hlast hlong
  exact ⟨_, he⟩

end

/-- Names as long as they can be, and so many that the path of the last is too long. -/
def longestNames : List FileName :=
  List.replicate 16 (.text (String.ofList (List.replicate 255 'x')))

/-! ## Names that are no texts -/

/-- Two files whose names are no texts, and are read alike. -/
def alikeTree : Disk where
  entries := ⟨[(namesOf ["srv"], .directory),
    (namesOf ["srv"] ++ [.raw ⟨[0xFE], rfl⟩], .file ⟨0, [1], ⟨0⟩, ⟨0⟩⟩),
    (namesOf ["srv"] ++ [.raw ⟨[0xFF], rfl⟩], .file ⟨1, [2], ⟨0⟩, ⟨0⟩⟩)]⟩
  fresh := 2

/-- Directories below which no links are: one cannot be listed, because one below it is too deep,
and in another two files have one key. -/
theorem not_each_file_listed_once :
    ((nested longestNames).Sound ∧ (nested longestNames).Named ∧
      (nested longestNames).walk topDirectory.rootPath = .ok (namesOf ["srv"]) ∧
      (nested longestNames).at? (namesOf ["srv"]) = some .directory ∧
      ∃ key, topDirectory.list Key.root (nested longestNames) =
        .error (.io key DiskError.nameTooLong.toIo)) ∧
    alikeTree.Sound ∧ alikeTree.Named ∧
      alikeTree.walk topDirectory.rootPath = .ok (namesOf ["srv"]) ∧
      alikeTree.at? (namesOf ["srv"]) = some .directory ∧
      topDirectory.list Key.root alikeTree = .ok [⟨["\uFFFD"]⟩, ⟨["\uFFFD"]⟩] := by
  have hnames : ∀ name ∈ longestNames, Disk.IsEntryName name := by
    intro name hm
    rw [List.eq_of_mem_replicate hm]
    decide +kernel
  refine ⟨⟨sound_nested _, named_nested hnames, walk_nested _,
    (at?_nested (by simp)).mpr ⟨[], List.nil_prefix, rfl, rfl⟩,
    list_nested hnames (by decide +kernel) (by decide +kernel)⟩, ?_, ?_, ?_, ?_, ?_⟩
  · refine Disk.sound_iff.mpr ⟨by unfold OrderedMap.Sorted; decide +kernel, by decide +kernel, ?_⟩
    simp [alikeTree]
  · decide +kernel
  · decide +kernel
  · decide +kernel
  · decide +kernel

end Directory

end BlobStore
