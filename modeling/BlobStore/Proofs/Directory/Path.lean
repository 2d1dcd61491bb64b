import BlobStore.Directory
import BlobStore.Proofs.Disk.Path
import BlobStore.Proofs.Key

/-!
# Paths of keys

A segment can be the name of a file if it is not empty, is neither a dot nor two, and contains no
slash. The path of a key goes on from the root with its segments, all of which are such names, so it
stays below the root and tells the key. A key with another segment is rejected by every request
before anything is looked for on the disk.

## Main definitions

* `Directory.checked`: the keys of a request, in the order in which their paths are asked for

## Main results

* `Directory.isPlain_iff`: what can be the name of a file
* `Directory.path_eq_ok`, `Directory.path_injective`: paths of keys
* `Directory.answer_rejected`: what comes of a request with a key that has no path
* `Directory.path_confined`: paths and rejections of all keys
-/

namespace BlobStore

/-! ## Segments -/

theorem DiskPath.ofText_of_not_mem {text : String} (h : '/' ∉ text.toList) :
    ofText text = ⟨[.text text]⟩ := by
  unfold ofText
  rw [Key.pieces_of_not_mem h]
  simp

theorem DiskPath.not_mem_of_mem_ofText {text piece : String}
    (h : .text piece ∈ (ofText text).pieces) : '/' ∉ piece.toList := by
  obtain ⟨chars, hm, he⟩ := List.mem_map.mp h
  rw [← FileName.text.inj he, String.toList_ofList]
  exact Key.not_mem_of_mem_pieces hm

namespace Directory

/-- A path that is one name has one part, which is that name. -/
theorem parts_of_components {p : DiskPath} {name : FileName} (h : p.components = [.name name]) :
    p.parts = [name] ∧ name ≠ .text ".." := by
  have hparts : p.parts.map DiskPath.component = [.name name] := by
    unfold DiskPath.components at h
    dsimp only at h
    split_ifs at h
    · cases h
    · cases h
    · exact h
  obtain ⟨part, hp, hname⟩ := List.map_eq_singleton_iff.mp hparts
  unfold DiskPath.component at hname
  split_ifs at hname with hup
  obtain rfl : part = name := PathComponent.name.inj hname
  exact ⟨hp, hup⟩

/-- What can be the name of a file. -/
theorem isPlain_iff {segment : String} :
    isPlain segment ↔ segment ≠ "" ∧ segment ≠ "." ∧ segment ≠ ".." ∧ '/' ∉ segment.toList := by
  constructor
  · intro h
    unfold isPlain at h
    split at h
    · rename_i name hc
      obtain rfl : name = .text segment := of_decide_eq_true h
      obtain ⟨hparts, hup⟩ := parts_of_components hc
      have hmem : .text segment ∈ (DiskPath.ofText segment).parts := by simp [hparts]
      obtain ⟨hpiece, hidle⟩ := List.mem_filter.mp hmem
      simp only [DiskPath.isIdle, Bool.not_or, Bool.and_eq_true, Bool.not_eq_true',
        decide_eq_false_iff_not, ne_eq, FileName.text.injEq] at hidle hup
      exact ⟨hidle.1, hidle.2, hup, DiskPath.not_mem_of_mem_ofText hpiece⟩
    · cases h
  · rintro ⟨hempty, hdot, hup, hslash⟩
    have habsolute : DiskPath.absolute ⟨[.text segment]⟩ = false := by
      rw [Bool.eq_false_iff]
      intro h
      obtain ⟨next, rest, hpieces⟩ := DiskPath.absolute_iff.mp h
      cases hpieces
    have hcomponents : DiskPath.components ⟨[.text segment]⟩ = [.name (.text segment)] := by
      simp [DiskPath.components, habsolute, hdot, DiskPath.parts, DiskPath.isIdle, hempty,
        DiskPath.component, hup]
    unfold isPlain
    rw [DiskPath.ofText_of_not_mem hslash, hcomponents]
    simp

/-- What the components of a path leave out counts as well. -/
example : (["a/", "./a", "a/.", "/", "..."].map isPlain) = [false, false, false, false, true] := by
  decide +kernel

/-- A name that is that of a segment. -/
def isPlainName : FileName → Bool
  | .text segment => isPlain segment
  | .raw _ => false

theorem isName_of_isPlain {name : FileName} (h : isPlainName name) : DiskPath.IsName name := by
  cases name with
  | text segment =>
    obtain ⟨hempty, hdot, hup, -⟩ := isPlain_iff.mp h
    simp [DiskPath.IsName, hempty, hdot, hup]
  | raw bytes => cases h

theorem isPlainName_names {key : Key} :
    (∀ name ∈ key.names, isPlainName name) ↔ ∀ segment ∈ key.segments, isPlain segment := by
  simp [Key.names, namesOf, isPlainName]

/-- A way along such names is that of a key. -/
theorem names_ofNames {way : List FileName} (h : ∀ name ∈ way, isPlainName name) :
    (Key.ofNames way).names = way := by
  induction way with
  | nil => rfl
  | cons name way ih =>
    obtain ⟨hname, hway⟩ := List.forall_mem_cons.mp h
    cases name with
    | text segment => exact congrArg (FileName.text segment :: ·) (ih hway)
    | raw bytes => cases hname

/-! ## Keys -/

variable {dir : Directory} {key key' : Key} {p : DiskPath}

/-- A key has a path if its segments can be names of files. -/
theorem path_eq_ok (h : dir.path key = .ok p) :
    p = dir.rootPath.descend key.names ∧ ∀ name ∈ key.names, isPlainName name := by
  unfold Directory.path at h
  split at h
  · cases h
  · rename_i hnone
    refine ⟨(Except.ok.inj h).symm, isPlainName_names.mpr ?_⟩
    intro segment hs
    simpa using List.find?_eq_none.mp hnone segment hs

theorem path_of_isPlain (h : ∀ name ∈ key.names, isPlainName name) :
    dir.path key = .ok (dir.rootPath.descend key.names) := by
  have hnone : key.segments.find? (!isPlain ·) = none := by
    apply List.find?_eq_none.mpr
    intro segment hs
    simp [isPlainName_names.mp h segment hs]
  unfold Directory.path
  rw [hnone]

/-- A path goes on from the root with the segments of its key. -/
theorem components_path (h : dir.path key = .ok p) :
    p.components = dir.rootPath.components ++ key.names.map .name := by
  obtain ⟨rfl, hplain⟩ := path_eq_ok h
  exact DiskPath.components_descend fun name hm => isName_of_isPlain (hplain name hm)

/-- Different keys have different paths, which differ in their components. -/
theorem path_injective {p' : DiskPath} (h : dir.path key = .ok p) (h' : dir.path key' = .ok p')
    (he : p.components = p'.components) : key = key' := by
  rw [components_path h, components_path h'] at he
  have hnames := List.map_injective_iff.mpr (fun _ _ => PathComponent.name.inj)
    (List.append_cancel_left he)
  exact Key.names_inj.mp hnames

/-- A key is nested under another if it has more names. -/
theorem under_iff_names {scope : Key} :
    key.Under scope ↔ ∃ way, way ≠ [] ∧ key.names = scope.names ++ way := by
  rw [Key.under_iff]
  constructor
  · rintro ⟨rest, hrest, hsegments⟩
    exact ⟨namesOf rest, by simpa using hrest, by simp [Key.names, hsegments]⟩
  · rintro ⟨way, hway, hnames⟩
    obtain ⟨rest, rfl, rfl⟩ := Key.names_eq_append.mp hnames
    exact ⟨rest.segments, fun he => hway (by simp [Key.names, he]), rfl⟩

/-! ## Rejected keys -/

/-- A key without a path is rejected for the first of its segments that cannot be the name of a
file. -/
theorem path_eq_error {e : StorageError} (h : dir.path key = .error e) :
    ∃ front segment rest, key.segments = front ++ segment :: rest ∧
      (∀ other ∈ front, isPlain other) ∧ ¬ isPlain segment ∧
      e = .io key ⟨.invalidInput, s!"segment '{segment}' is not a plain file name"⟩ := by
  unfold Directory.path at h
  split at h
  · rename_i segment hfind
    obtain ⟨hsegment, front, rest, hsplit, hfront⟩ := List.find?_eq_some_iff_append.mp hfind
    exact ⟨front, segment, rest, hsplit, by simpa using hfront, by simpa using hsegment,
      (Except.error.inj h).symm⟩
  · cases h

theorem path_isOk_iff :
    (∃ p, dir.path key = .ok p) ↔ ∀ segment ∈ key.segments, isPlain segment :=
  ⟨fun ⟨_, h⟩ => isPlainName_names.mp (path_eq_ok h).2,
    fun h => ⟨_, path_of_isPlain (isPlainName_names.mpr h)⟩⟩

/-- The keys of a request, in the order in which their paths are asked for. -/
def checked : Request → List Key
  | .move source destination => [destination, source]
  | .contains key | .list key | .save key _ | .value key | .delete key | .metadata key => [key]

theorem file_of_path_error {e : StorageError} (h : dir.path key = .error e) (d : Disk) :
    dir.file key d = .error e := by
  unfold Directory.file
  rw [h]

theorem list_of_path_error {e : StorageError} (h : dir.path key = .error e) (d : Disk) :
    dir.list key d = .error e := by
  unfold Directory.list listBy
  rw [h]

theorem startSave_of_path_error {e : StorageError} (h : dir.path key = .error e) (now : Time)
    (s : Disk × Nat) : dir.startSave key now s = (.error e, s) := by
  unfold Directory.startSave
  rw [h]

/-- The first of its keys that has no path is what a request is rejected for, before anything is
looked for on the disk. -/
theorem answer_rejected {r : Request} {front rest : List Key} {e : StorageError}
    (hkeys : checked r = front ++ key :: rest)
    (hfront : ∀ other ∈ front, ∃ p, dir.path other = .ok p)
    (h : dir.path key = .error e) (now : Time) (s : Disk × Nat) :
    dir.answer r now s = (.error e, s) := by
  obtain ⟨d, count⟩ := s
  have hfile := file_of_path_error h d
  have hone : ∀ {other : Key}, [other] = front ++ key :: rest → other = key := fun hk =>
    (List.mem_singleton.mp (hk ▸ List.mem_append_right front List.mem_cons_self)).symm
  cases r with
  | move source destination =>
    rcases front with _ | ⟨first, front⟩
    · obtain ⟨rfl, -⟩ := List.cons.inj hkeys
      simp only [answer, move, h]
    · obtain ⟨rfl, hsource⟩ := List.cons.inj hkeys
      obtain ⟨target, htarget⟩ := hfront destination List.mem_cons_self
      have hkey : source = key := by
        have hmem : key ∈ [source] := hsource ▸ List.mem_append_right front List.mem_cons_self
        exact (List.mem_singleton.mp hmem).symm
      subst hkey
      simp only [answer, move, htarget, hfile]
  | save other content =>
    obtain rfl := hone hkeys
    simp only [answer, save, startSave_of_path_error h]
    rfl
  | contains other =>
    obtain rfl := hone hkeys
    simp only [answer, contains, h]
    rfl
  | list other =>
    obtain rfl := hone hkeys
    simp only [answer, list_of_path_error h]
    rfl
  | value other =>
    obtain rfl := hone hkeys
    simp only [answer, hfile]
    rfl
  | delete other =>
    obtain rfl := hone hkeys
    simp only [answer, remove, hfile]
  | metadata other =>
    obtain rfl := hone hkeys
    simp only [answer, hfile]
    rfl

/-- **A storage stays below its root.** A key has a path exactly if its segments can be names of
files; the path goes on from the root with one name for each segment, so different keys have
different paths; and for the first of its keys that has no path a request fails as invalid input,
which names the key, and changes nothing. -/
theorem path_confined (dir : Directory) :
    (∀ key, (∃ p, dir.path key = .ok p) ↔
      ∀ segment ∈ key.segments,
        segment ≠ "" ∧ segment ≠ "." ∧ segment ≠ ".." ∧ '/' ∉ segment.toList) ∧
    (∀ key p, dir.path key = .ok p →
      p.components = dir.rootPath.components ++ key.names.map .name) ∧
    (∀ key key' p p', dir.path key = .ok p → dir.path key' = .ok p' →
      p.components = p'.components → key = key') ∧
    ∀ key e, dir.path key = .error e →
      (∃ segment ∈ key.segments, ¬ isPlain segment ∧
        e = .io key ⟨.invalidInput, s!"segment '{segment}' is not a plain file name"⟩) ∧
      (∀ r front rest, checked r = front ++ key :: rest →
        (∀ other ∈ front, ∃ p, dir.path other = .ok p) →
          ∀ now s, dir.answer r now s = (.error e, s)) ∧
      ∀ size? now s, dir.intake.start key size? now s = (.error e, s) := by
  refine ⟨fun key => ?_, fun key p => components_path, fun key key' p p' => path_injective,
    fun key e h => ⟨?_, ?_, ?_⟩⟩
  · rw [path_isOk_iff]
    exact forall₂_congr fun segment _ => isPlain_iff
  · obtain ⟨front, segment, rest, hsplit, -, hsegment, he⟩ := path_eq_error h
    exact ⟨segment, by simp [hsplit], hsegment, he⟩
  · intro r front rest hkeys hfront now s
    exact answer_rejected hkeys hfront h now s
  · intro size? now s
    exact startSave_of_path_error h now s

/-- A storage whose root is at the top. -/
def topDirectory : Directory := ⟨"/srv", 7⟩

/-- A way up has no path, so nothing is moved there, and the source is not looked for. -/
theorem path_confined_at_top :
    topDirectory.path ⟨["a", "b"]⟩ = .ok (.ofText "/srv/a/b") ∧
      (DiskPath.ofText "/srv/a/b").components =
        topDirectory.rootPath.components ++ [.name (.text "a"), .name (.text "b")] ∧
      topDirectory.path ⟨["a", ".."]⟩ =
        .error (.io ⟨["a", ".."]⟩ ⟨.invalidInput, "segment '..' is not a plain file name"⟩) ∧
      ∀ s, topDirectory.answer (.move ⟨["a"]⟩ ⟨["a", ".."]⟩) ⟨0⟩ s =
        (.error (.io ⟨["a", ".."]⟩ ⟨.invalidInput, "segment '..' is not a plain file name"⟩),
          s) := by
  have hpath : topDirectory.path ⟨["a", "b"]⟩ = .ok (.ofText "/srv/a/b") := by decide +kernel
  have herror : topDirectory.path ⟨["a", ".."]⟩ =
      .error (.io ⟨["a", ".."]⟩ ⟨.invalidInput, "segment '..' is not a plain file name"⟩) := by
    decide +kernel
  obtain ⟨-, hcomponents, -, hrejected⟩ := path_confined topDirectory
  exact ⟨hpath, hcomponents _ _ hpath, herror, (hrejected _ _ herror).2.1
    (.move ⟨["a"]⟩ ⟨["a", ".."]⟩) [] [⟨["a"]⟩] rfl (List.forall_mem_nil _) ⟨0⟩⟩

end Directory

end BlobStore
