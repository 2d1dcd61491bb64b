import BlobStore.Proofs.Directory.Save

/-!
# Answers of a directory

What a directory that holds some contents answers, and what it holds afterwards. A path that runs
through a file, and one that ends at a directory, find no value, as if nothing were there.

## Main results

* `Directory.Holds.file`, `Directory.Holds.file_missing`: the file of a key
* `Directory.Holds.list`: a listing is that of a memory with the same contents
* `Directory.Holds.move`, `Directory.Holds.remove`: what moves and removals answer and leave
-/

namespace BlobStore

namespace Directory

variable {dir : Directory} {key : Key} {base d : Disk} {root : Place} {c : Contents}

/-! ## Files -/

/-- If a path leads to no entry, its key has no value. -/
theorem file_missing (hk : dir.Suits key) {e : DiskError}
    (hstat : d.stat (dir.rootPath.descend key.names) = .error e) (he : e.isMissing) :
    dir.file key d = .error (.notFound key) ∧ dir.contains key d = .ok false := by
  unfold Directory.file Directory.contains
  rw [hk.path]
  simp [hstat, he]

namespace Holds

/-- The file of a stored key is there and holds its bytes. -/
theorem file (h : dir.Holds base root d c) (hk : dir.Suits key) {bytes : Bytes}
    (hc : c key = some bytes) :
    ∃ file, d.at? (root ++ key.names) = some (.file file) ∧ file.bytes = bytes ∧
      dir.file key d = .ok file ∧ dir.contains key d = .ok true := by
  have hv := h.stores.visible key (by rw [hc]; rfl)
  obtain ⟨file, hat, hbytes⟩ := (h.stores.file key.names hv bytes).mp (by simpa using hc)
  refine ⟨file, hat, hbytes, ?_, ?_⟩
  · rw [hk.file_eq h.rooted, hat]
  · rw [hk.contains_eq h.rooted, hat]

/-- Without a value there is no file: nothing stands there, or a directory does. -/
theorem file_missing (h : dir.Holds base root d c) (hk : dir.Suits key) (hc : c key = none) :
    dir.file key d = .error (.notFound key) ∧ dir.contains key d = .ok false := by
  rw [hk.file_eq h.rooted, hk.contains_eq h.rooted]
  rcases hat : d.at? (root ++ key.names) with _ | ⟨_ | file | target⟩
  · exact ⟨rfl, rfl⟩
  · exact ⟨rfl, rfl⟩
  · have hroot : key ≠ Key.root := by
      rintro rfl
      rw [Key.names_root, List.append_nil, h.rooted.directory] at hat
      cases hat
    have hvalue := (h.stores.file key.names (hk.visible hroot) file.bytes).mpr ⟨file, hat, rfl⟩
    rw [valueAt_names, hc] at hvalue
    cases hvalue
  · exact absurd hat (h.rooted.linkless _ target)

/-! ## Listings -/

/-- A file below the place of a key is that of a key with a value. -/
theorem exists_key (h : dir.Holds base root d c) {scope : Key} (hs : dir.Suits scope)
    {way : List FileName} {file : DiskFile} (hway : way ≠ []) (hhidden : isHidden scope way = false)
    (hat : d.at? (root ++ scope.names ++ way) = some (.file file)) :
    ∃ q : Key, q.names = way ∧ (c (scope.join q)).isSome := by
  rw [List.append_assoc] at hat
  have hv := IsShown.visible_append hs.shown hway hhidden
  have hvalue := (h.stores.file _ hv file.bytes).mpr ⟨file, hat, rfl⟩
  obtain ⟨k, hnames, hk⟩ := isSome_valueAt (by rw [hvalue]; rfl : (valueAt c _).isSome)
  obtain ⟨q, rfl, rfl⟩ := Key.names_eq_append.mp hnames
  exact ⟨q, rfl, hk⟩

/-- The stored keys under a key have their files below its place. -/
theorem mem_listed (h : dir.Holds base root d c) {scope k : Key} (hs : dir.Suits scope) :
    k ∈ listed scope (root ++ scope.names) d ↔ (c k).isSome ∧ k.Under scope := by
  rw [Directory.mem_listed h.sound]
  constructor
  · rintro ⟨way, hway, hhidden, ⟨file, hat⟩, rfl⟩
    obtain ⟨q, rfl, hq⟩ := h.exists_key hs hway hhidden hat
    rw [Key.ofNames_names]
    exact ⟨hq, under_iff_names.mpr ⟨q.names, hway, Key.names_join scope q⟩⟩
  · rintro ⟨hsome, hu⟩
    obtain ⟨way, hway, hk⟩ := under_iff_names.mp hu
    obtain ⟨q, rfl, rfl⟩ := Key.names_eq_append.mp hk
    have hv := h.stores.visible _ hsome
    obtain ⟨bytes, hb⟩ := Option.isSome_iff_exists.mp hsome
    obtain ⟨file, hat, -⟩ := (h.stores.file _ hv bytes).mp (by rw [valueAt_names, hb])
    rw [Key.names_join, ← List.append_assoc] at hat
    refine ⟨q.names, hway, ?_, ⟨file, hat⟩, by rw [Key.ofNames_names]⟩
    unfold isHidden
    by_cases hscope : scope = Key.root
    · subst hscope
      simpa [Key.isRoot, Key.root] using hv.2
    · have hroot : scope.isRoot = false := by
        rw [Bool.eq_false_iff]
        exact fun he => hscope (Key.ext_segments (List.isEmpty_iff.mp he))
      rw [hroot, Bool.false_and]

/-- A listing is that of a memory with the same contents. -/
theorem list {m : Memory} (h : dir.Holds base root d m.contents) (hm : m.Sorted) {scope : Key}
    (hs : dir.Suits scope) : dir.list scope d = .ok (m.nested scope) := by
  rw [hs.list_eq h.rooted h.sound]
  have hlisted : (listed scope (root ++ scope.names) d).Pairwise (· < ·) := by
    refine listed_pairwise h.sound fun way file hhidden hat => ?_
    by_cases hway : way = []
    · exact ⟨Key.root, hway.symm⟩
    · obtain ⟨q, hq, -⟩ := h.exists_key hs hway hhidden hat
      exact ⟨q, hq⟩
  refine congrArg Except.ok (Key.eq_of_pairwise hlisted (hm.nested_pairwise scope) fun k => ?_)
  rw [h.mem_listed hs, hm.mem_nested]

end Holds

/-! ## Moves and removals -/

/-- With the empty directories on the way to a file that is gone, nothing but the contents is
left, if nothing has changed where no value can be. -/
theorem Holds.pruned {d' : Disk} {c' : Contents} (h : dir.Holds base root d c)
    (hst : Stores d' root c' fun way => way <+: key.names ∧ way ≠ key.names)
    (hr : d'.Rooted base dir.rootPath root) (hs : d'.Sound) (hk : dir.Suits key)
    (hroot : key ≠ Key.root) (hdir : d'.at? (root ++ key.names.dropLast) = some .directory)
    (hframe : ∀ way, ¬ Visible way → d'.at? (root ++ way) = d.at? (root ++ way)) :
    dir.Holds base root
      (d'.removeDirectories (dir.parents (dir.rootPath.descend key.names))) c' := by
  obtain ⟨hst, hrooted, hsound, hpruned⟩ :=
    hst.prune hr hs hk.admits (hk.visible hroot) hdir
  refine ⟨hrooted, hsound, hst, ?_, ?_⟩
  · rw [hpruned _ (not_visible_draft []), hframe _ (not_visible_draft [])]
    exact h.place
  · intro way hway
    rw [hpruned _ (not_visible_draft way), hframe _ (not_visible_draft way)]
    exact h.idle way hway

/-- Nothing is moved if there is no file to move. -/
theorem move_missing {source destination : Key} {e : StorageError} (hd : dir.Suits destination)
    (hfile : dir.file source d = .error e) :
    dir.move source destination d = (.error e, d) := by
  unfold Directory.move
  rw [hd.path, hfile]

theorem remove_missing {e : StorageError} (hfile : dir.file key d = .error e) :
    dir.remove key d = (.error e, d) := by
  unfold Directory.remove
  rw [hfile]

theorem exists_concat (hroot : key ≠ Key.root) : ∃ names name, key.names = names ++ [name] :=
  List.eq_nil_or_concat' key.names |>.resolve_left (Key.names_eq_nil.not.mpr hroot)

namespace Holds

/-- A stored value is removed, with the directories that are left empty. -/
theorem remove (h : dir.Holds base root d c) (hk : dir.Suits key) {bytes : Bytes}
    (hc : c key = some bytes) :
    (dir.remove key d).1.result = .ok () ∧
      dir.Holds base root (dir.remove key d).2 (Function.update c key none) := by
  have hv := h.stores.visible key (by rw [hc]; rfl)
  have hroot : key ≠ Key.root := fun he => hv.1 (by rw [he]; rfl)
  obtain ⟨file, hat, -, hfile, -⟩ := h.file hk hc
  obtain ⟨names, name, hnames⟩ := exists_concat hroot
  have ha := hk.admits
  rw [hnames] at ha hat
  obtain ⟨d₁, hremove, hc₁⟩ := h.rooted.removeFile h.sound ha hat
  have hr₁ := h.rooted.without_file hc₁ hat
  have hresult : (dir.remove key d).1.result = .ok () ∧
      (dir.remove key d).2 =
        d₁.removeDirectories (dir.parents (dir.rootPath.descend key.names)) := by
    unfold Directory.remove
    rw [hfile, hk.path, hnames]
    simp only [hremove]
    exact ⟨rfl, trivial⟩
  rw [hresult.2]
  rw [← hnames] at hc₁
  have hstores : Stores d₁ root (Function.update c key none)
      fun way => way <+: key.names ∧ way ≠ key.names :=
    (h.stores.erase hc₁).mono fun way _ hspare => Or.inl (hspare.resolve_left id)
  have hframe : ∀ way, ¬ Visible way → d₁.at? (root ++ way) = d.at? (root ++ way) :=
    fun way hway => hc₁.elsewhere (hv.ne hway).symm
  refine ⟨hresult.1, h.pruned hstores hr₁ hc₁.sound hk hroot ?_ hframe⟩
  rw [hnames] at hc₁ ⊢
  rw [List.dropLast_concat, hc₁.elsewhere (by simp)]
  exact h.rooted.nested names name (by rw [hat]; rfl)

/-- A stored value that is moved to its own key stays. -/
theorem move_self (h : dir.Holds base root d c) (hk : dir.Suits key) {bytes : Bytes}
    (hc : c key = some bytes) : dir.move key key d = (.ok (), d) := by
  obtain ⟨file, -, -, hfile, -⟩ := h.file hk hc
  unfold Directory.move
  rw [hk.path, hfile]
  simp

/-- A stored value is moved to a free key. -/
theorem move {source destination : Key} (h : dir.Holds base root d c) (hs : dir.Suits source)
    (hd : dir.Suits destination) (hf : IsFree c destination) {bytes : Bytes}
    (hc : c source = some bytes) :
    (dir.move source destination d).1.result = .ok () ∧
      dir.Holds base root (dir.move source destination d).2
        (Function.update (Function.update c source none) destination (some bytes)) := by
  have hv := h.stores.visible source (by rw [hc]; rfl)
  have hroot : source ≠ Key.root := fun he => hv.1 (by rw [he]; rfl)
  obtain ⟨file, hat, rfl, hfile, -⟩ := h.file hs hc
  by_cases hsd : source = destination
  · subst hsd
    rw [h.move_self hs hc, Function.update_idem, ← hc, Function.update_eq_self]
    exact ⟨rfl, h⟩
  have hvd := hd.visible hf.1
  obtain ⟨names, name, hnames⟩ := exists_concat hroot
  have ha := hs.admits
  rw [hnames] at ha hat
  have hne : names ++ [name] ≠ destination.names := by
    intro he
    exact hsd (Key.names_inj.mp (hnames.trans he))
  obtain ⟨habove, hfree⟩ := h.stores.free h.rooted hd hf
  obtain ⟨d₁, d₂, d₃, hinstall, hpaved, hc₂, hc₃, hr₃, hs₃⟩ := install_free h.rooted h.sound
    ha hat hd hf.1 habove hfree hne (fun e => StorageError.io destination e.toIo) (failure source)
  have hresult : (dir.move source destination d).1.result = .ok () ∧
      (dir.move source destination d).2 =
        d₃.removeDirectories (dir.parents (dir.rootPath.descend source.names)) := by
    unfold Directory.move
    rw [hd.path, hfile, hs.path, hnames]
    simp only [hsd, if_false, hinstall]
    exact ⟨rfl, trivial⟩
  have hframe : ∀ way, ¬ Visible way → d₃.at? (root ++ way) = d.at? (root ++ way) := by
    intro way hway
    have hother : way ≠ names ++ [name] := hnames ▸ (hv.ne hway).symm
    rw [hc₃.elsewhere (hvd.ne hway).symm, hc₂.elsewhere hother, hidden_of_paved hpaved hvd hway]
  have hdir : d₃.at? (root ++ source.names.dropLast) = some .directory := by
    have hbefore : d.at? (root ++ names) = some .directory :=
      h.rooted.nested names name (by rw [hat]; rfl)
    rw [hnames, List.dropLast_concat, hc₃.elsewhere, hc₂.elsewhere (by simp),
      hpaved.kept hbefore]
    rintro rfl
    exact hfree hbefore
  rw [← hnames] at hc₂
  rw [hresult.2]
  exact ⟨hresult.1,
    h.pruned (h.stores.renamed hpaved hc₂ hc₃ hvd) hr₃ hs₃ hs hroot hdir hframe⟩

end Holds

end Directory

end BlobStore
