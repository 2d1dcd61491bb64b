import BlobStore.Proofs.Directory.Trace

/-!
# Values kept by failed requests

A request that fails leaves every value of a directory as it was, and no draft. What is read stays
the same too, but for one thing: a path that ended where nothing was may go on through a directory
that was left there, to a name that is too long. The root may not have been made yet; a save makes
it, also one that fails.

## Main definitions

* `Request.IsRead`: requests that only read
* `Directory.ReadsAs`: a key is read alike on two disks
* `Directory.Unmade`: a root that is made by the first save
* `Directory.SameValues`: the same values are stored, and there is no draft

## Main results

* `Directory.SameValues.of_littered`: directories that are left do not count
* `Directory.Reached.answer`: a failed request keeps the values, in every state of a run
-/

namespace BlobStore

/-- A request that only reads. -/
def Request.IsRead : Request → Prop
  | .contains _ | .list _ | .value _ | .metadata _ => True
  | .save _ _ | .move _ _ | .delete _ => False

namespace Directory

variable {dir : Directory} {key : Key} {base d d' : Disk} {root : Place} {s s' : Disk × Nat}

/-! ## Keys that are read alike -/

/-- A key is read alike on two disks. -/
structure ReadsAs (dir : Directory) (d d' : Disk) (key : Key) : Prop where
  contains : dir.contains key d = dir.contains key d'
  list : dir.list key d = dir.list key d'
  file : dir.file key d = dir.file key d'

namespace ReadsAs

theorem refl (dir : Directory) (d : Disk) (key : Key) : dir.ReadsAs d d key := ⟨rfl, rfl, rfl⟩

theorem trans {d'' : Disk} (h : dir.ReadsAs d d' key) (h' : dir.ReadsAs d' d'' key) :
    dir.ReadsAs d d'' key :=
  ⟨h.contains.trans h'.contains, h.list.trans h'.list, h.file.trans h'.file⟩

/-- A key that is no path is read alike on all disks. -/
theorem of_path_error {e : StorageError} (h : dir.path key = .error e) (d d' : Disk) :
    dir.ReadsAs d d' key := by
  refine ⟨?_, ?_, ?_⟩
  · unfold Directory.contains
    rw [h]
  · rw [list_of_path_error h, list_of_path_error h]
  · unfold Directory.file
    rw [h]

/-- So is one whose path no call accepts. -/
theorem of_refused {p : DiskPath} (h : dir.path key = .ok p) {e : DiskError}
    (hr : Disk.refuse p = some e) (d d' : Disk) : dir.ReadsAs d d' key := by
  have hwalk : ∀ d : Disk, d.walk p = .error e := by
    intro d
    unfold Disk.walk Disk.reach
    rw [hr]
  have hstat : ∀ d : Disk, d.stat p = .error e := by
    intro d
    unfold Disk.stat
    rw [hwalk]
  refine ⟨?_, ?_, ?_⟩
  · unfold Directory.contains
    rw [h]
    simp only [hstat]
  · unfold Directory.list listBy
    rw [h]
    simp only [hstat]
  · unfold Directory.file
    rw [h]
    simp only [hstat]

/-- On two trees it is enough that the path of the key finds the same, and that the same files are
below. -/
theorem of_stat (hr : d.Rooted base dir.rootPath root) (hr' : d'.Rooted base dir.rootPath root)
    (hs : d.Sound) (hs' : d'.Sound)
    {p : DiskPath} (h : dir.path key = .ok p) (hstat : d.stat p = d'.stat p)
    (hlisted : listed key (root ++ key.names) d = listed key (root ++ key.names) d') :
    dir.ReadsAs d d' key := by
  refine ⟨?_, ?_, ?_⟩
  · unfold Directory.contains
    rw [h]
    simp only [hstat]
  · rw [list_eq_stat hr hs h, list_eq_stat hr' hs' h, hstat, hlisted]
  · unfold Directory.file
    rw [h]
    simp only [hstat]

/-- A key whose segments are short enough is read alike if it is when it suits the disk. -/
theorem of_short (hk : IsShown key)
    (hshort : ∀ segment ∈ key.names, Disk.isTooLong segment = false)
    (h : dir.Suits key → dir.ReadsAs d d' key) : dir.ReadsAs d d' key := by
  cases hpath : dir.path key with
  | error e => exact of_path_error hpath d d'
  | ok p =>
    obtain ⟨rfl, hplain⟩ := path_eq_ok hpath
    cases hr : Disk.refuse (dir.rootPath.descend key.names) with
    | some e => exact of_refused hpath hr d d'
    | none => exact h ⟨hplain, hshort, hr, hk⟩

/-- Requests for keys that are read alike are answered alike. -/
theorem answer {q : Request} (hq : q.IsRead) (h : ∀ key ∈ q.named, dir.ReadsAs s.1 s'.1 key)
    (now : Time) : (dir.answer q now s).1 = (dir.answer q now s').1 := by
  cases q with
  | contains key => simp only [Directory.answer, (h key (by simp [Request.named])).contains]
  | list key => simp only [Directory.answer, (h key (by simp [Request.named])).list]
  | value key => simp only [Directory.answer, (h key (by simp [Request.named])).file]
  | metadata key => simp only [Directory.answer, (h key (by simp [Request.named])).file]
  | save _ _ | move _ _ | delete _ => exact hq.elim

end ReadsAs

/-! ## Directories that are left -/

/-- Files where values can be are where they were. -/
theorem Littered.file_iff {other : Key} (h : dir.Littered d d' root other) {way : List FileName}
    (hv : Visible way) {file : DiskFile} :
    d.at? (root ++ way) = some (.file file) ↔ d'.at? (root ++ way) = some (.file file) := by
  rcases h way hv with he | ⟨hnone, hdir, -⟩
  · rw [he]
  · simp [hnone, hdir]

/-- A key that suits the disk is read alike although directories are left. -/
theorem Littered.readsAs {other : Key} (h : dir.Littered d d' root other)
    (hd : dir.Rests base root d) (hd' : dir.Rests base root d') (hk : dir.Suits key) :
    dir.ReadsAs d d' key := by
  have hlisted : listed key (root ++ key.names) d = listed key (root ++ key.names) d' :=
    listed_congr hd.sound hd'.sound hk.shown fun way hv => exists_congr fun file => h.file_iff hv
  by_cases hroot : key.names = []
  · refine .of_stat hd.rooted hd'.rooted hd.sound hd'.sound hk.path ?_ hlisted
    rw [hroot, DiskPath.descend_nil, hd.rooted.leads.stat, hd'.rooted.leads.stat]
  · have hv : Visible key.names := ⟨hroot, hk.shown⟩
    refine ⟨?_, ?_, ?_⟩
    · rw [hk.contains_eq hd.rooted, hk.contains_eq hd'.rooted]
      rcases h _ hv with he | ⟨hnone, hdir, -⟩
      · rw [he]
      · rw [hnone, hdir]
    · rw [hk.list_eq hd.rooted hd.sound, hk.list_eq hd'.rooted hd'.sound, hlisted]
    · rw [hk.file_eq hd.rooted, hk.file_eq hd'.rooted]
      rcases h _ hv with he | ⟨hnone, hdir, -⟩
      · rw [he]
      · rw [hnone, hdir]

/-- Without any, all keys are read alike. -/
theorem Untouched.readsAs (h : Untouched d d' root) (hd : dir.Rests base root d)
    (hd' : dir.Rests base root d') (hk : IsShown key) : dir.ReadsAs d d' key := by
  cases hpath : dir.path key with
  | error e => exact .of_path_error hpath d d'
  | ok p =>
    refine .of_stat hd.rooted hd'.rooted hd.sound hd'.sound hpath ?_ ?_
    · obtain ⟨rfl, hplain⟩ := path_eq_ok hpath
      have hv : ∀ front, front ≠ [] → front <+: key.names → Visible front :=
        fun front hne hp => hk.visible hne hp
      rcases List.eq_nil_or_concat' key.names with hnames | ⟨names, name, hnames⟩ <;>
        rw [hnames] at hplain hv ⊢
      · rw [DiskPath.descend_nil, hd.rooted.leads.stat, hd'.rooted.leads.stat]
      · have hn := fun segment hm => isName_of_isPlain (hplain segment hm)
        have hlookUp := Disk.lookUp_congr (p := dir.rootPath) (f := id)
          (fun _ _ he => iff_of_eq (congrArg (· = DiskEntry.directory) he)) fun front hne hp =>
            congrArg (Option.map id) (h front (hv front hne hp)).symm
        simp only [Option.map_id_fun, Except.map_id, id_eq] at hlookUp
        rw [hd.rooted.stat_eq hn, hd'.rooted.stat_eq hn, hlookUp]
    · exact listed_congr hd.sound hd'.sound hk fun way hv => by rw [h way hv]

/-- The same values are stored, and there is no draft. What is read is the same too, if no name is
too long or no directory was made. -/
structure SameValues (dir : Directory) (s s' : Disk × Nat) : Prop where
  file : ∀ key, IsShown key → ∀ value,
    dir.file key s'.1 = .ok value ↔ dir.file key s.1 = .ok value
  answer : ∀ q : Request, q.IsRead → (∀ key ∈ q.named, IsShown key) →
    ((∀ key ∈ q.named, ∀ segment ∈ key.names, Disk.isTooLong segment = false) ∨
        ¬ dir.Litters s.1 s'.1) →
      ∀ now, (dir.answer q now s').1 = (dir.answer q now s).1
  drafts : ∀ place, s'.1.walk dir.draftsPath = .ok place → s'.1.below place = []

/-- Nothing is in the directory for drafts. -/
theorem Rests.no_drafts (h : dir.Rests base root d) {place : Place}
    (hw : d.walk dir.draftsPath = .ok place) : d.below place = [] := by
  have hplace : place = root ++ [draftsName] := by
    have hdrafts : dir.draftsPath = dir.rootPath.descend ([] ++ [draftsName]) := rfl
    rw [hdrafts, h.rooted.walk_eq (by simpa using isName_draftsName)] at hw
    split at hw
    · cases hw
    · cases hw
    · exact (Except.ok.inj hw).symm
  subst hplace
  rw [← List.isEmpty_iff, h.sound.below_isEmpty]
  intro way hway
  rw [List.append_assoc]
  exact h.idle way hway

/-- Directories that are left do not count. -/
theorem SameValues.of_littered (h : dir.Rests base root s.1) (h' : dir.Rests base root s'.1)
    (hl : Untouched s.1 s'.1 root ∨ ∃ other, dir.Littered s.1 s'.1 root other) :
    dir.SameValues s s' := by
  obtain ⟨other, hleft⟩ : ∃ other, dir.Littered s.1 s'.1 root other := by
    rcases hl with hu | hl
    · exact ⟨Key.root, hu.littered _⟩
    · exact hl
  refine ⟨fun key hk value => ⟨fun hf => ?_, fun hf => ?_⟩, ?_, fun place => h'.no_drafts⟩
  · obtain ⟨hsuits, -⟩ := file_eq_ok h'.rooted hk hf
    rw [(hleft.readsAs h h' hsuits).file, hf]
  · obtain ⟨hsuits, -⟩ := file_eq_ok h.rooted hk hf
    rw [← (hleft.readsAs h h' hsuits).file, hf]
  · intro q hq hshown hshort now
    refine (ReadsAs.answer hq (fun key hk => ?_) now).symm
    rcases hshort with hshort | hclean
    · exact .of_short (hshown key hk) (hshort key hk) (hleft.readsAs h h')
    · exact (hleft.untouched h'.rooted hclean).readsAs h h' (hshown key hk)

/-! ## Roots that are not made yet -/

/-- The root is not there, and once it is made nothing is below it. -/
structure Unmade (dir : Directory) (d : Disk) : Prop where
  sound : d.Sound
  missing : d.walk dir.rootPath = .error .noEntry
  made : ∃ d', d.makeDirectories dir.draftsPath.parent = (.ok (), d') ∧ dir.Vacant d'

/-- If no call accepts the path of the directory for drafts, no save starts, and the disk stays as
it was. -/
theorem startSave_refused (hr : Disk.refuse dir.draftsPath ≠ none) (d : Disk) (key : Key) :
    ∃ e, ∀ now serial, ∃ events n,
      dir.startSave key now (d, serial) = (⟨.error e, events⟩, d, n) := by
  obtain ⟨e, he⟩ := Option.ne_none_iff_exists'.mp hr
  unfold startSave openDraft
  cases dir.path key with
  | error e => exact ⟨e, fun now serial => ⟨[], serial, rfl⟩⟩
  | ok p =>
    refine ⟨failure key e, fun now serial => ⟨(dir.dropDraft serial d).1, serial + 1, ?_⟩⟩
    obtain ⟨e', he'⟩ : ∃ e, Disk.refuse (dir.draftPath serial) = some e := by
      refine Option.ne_none_iff_exists'.mp fun hnone => hr ?_
      rw [draftPath_eq] at hnone
      exact Disk.refuse_of_descend hnone (by simp) fun name hn =>
        (isName_draft dir serial name hn).1
    have hdrop : (dir.dropDraft serial d).2 = d := by
      unfold dropDraft Disk.removeFile Disk.locate Disk.approach
      simp only [he']
      cases e' <;> rfl
    simp only [makeDrafts_refused he, discard, hdrop]

namespace Unmade

theorem absent (h : dir.Unmade d) : dir.Absent d := by
  obtain ⟨d', hmake, hvacant⟩ := h.made
  exact ⟨h.missing, d', hmake, hvacant.empty⟩

theorem walk_error (h : dir.Unmade d) {names : List FileName}
    (hn : ∀ name ∈ names, DiskPath.IsName name) :
    ∃ e, d.walk (dir.rootPath.descend names) = .error e := by
  cases hr : Disk.refuse (dir.rootPath.descend names) with
  | some e =>
    refine ⟨e, ?_⟩
    unfold Disk.walk Disk.reach
    rw [hr]
  | none => exact ⟨.noEntry, h.absent.walk hn hr⟩

/-- No key has a value. -/
theorem file_error (h : dir.Unmade d) (key : Key) : ∃ e, dir.file key d = .error e := by
  unfold Directory.file
  cases hpath : dir.path key with
  | error e => exact ⟨e, rfl⟩
  | ok p =>
    obtain ⟨rfl, hplain⟩ := path_eq_ok hpath
    obtain ⟨e, he⟩ := h.walk_error fun segment hm => isName_of_isPlain (hplain segment hm)
    simp only [Disk.stat, he]
    exact ⟨_, rfl⟩

/-- As long as there is no root, there are no drafts. -/
theorem sameValues (h : dir.Unmade d) (n m : Nat) : dir.SameValues (d, n) (d, m) where
  file _ _ _ := Iff.rfl
  answer q hq _ _ now := ReadsAs.answer hq (fun key _ => .refl dir d key) now
  drafts place hw := by
    have hname : ∀ name ∈ [draftsName], DiskPath.IsName name := by simpa using isName_draftsName
    obtain ⟨e, he⟩ := h.walk_error hname
    rw [show dir.draftsPath = dir.rootPath.descend [draftsName] from rfl, he] at hw
    cases hw

/-- A key that suits the disk is read as if the root was there, with nothing below it. -/
theorem readsAs (h : dir.Unmade d) (h' : dir.Rests d' root d') (hk : dir.Suits key) :
    dir.ReadsAs d d' key := by
  obtain ⟨hfile, hcontains⟩ := h.absent.file_missing hk
  have hat : d'.at? (root ++ key.names) = none ∨
      d'.at? (root ++ key.names) = some .directory := by
    by_cases hroot : key.names = []
    · rw [hroot, List.append_nil]
      exact Or.inr h'.rooted.directory
    · exact Or.inl (h'.rooted.empty _ hroot)
  have hlisted : listed key (root ++ key.names) d' = [] := by
    apply List.eq_nil_iff_forall_not_mem.mpr
    intro k hm
    obtain ⟨way, hway, -, ⟨file, hf⟩, -⟩ := (mem_listed h'.sound).mp hm
    rw [List.append_assoc, h'.rooted.empty _ (by simp [hway])] at hf
    cases hf
  refine ⟨?_, ?_, ?_⟩
  · rw [hcontains, hk.contains_eq h'.rooted]
    rcases hat with hat | hat <;> rw [hat]
  · rw [h.absent.list hk, hk.list_eq h'.rooted h'.sound, hlisted]
  · rw [hfile, hk.file_eq h'.rooted]
    rcases hat with hat | hat <;> rw [hat]

/-- Once the root is made, there is a directory that was not there before. -/
theorem litters (h : dir.Unmade d) {made : Disk}
    (hmake : d.makeDirectories dir.draftsPath.parent = (.ok (), made))
    (h' : dir.Rests made root d') : dir.Litters d d' := by
  have hgains : d.Gains made := by
    have hg := Disk.gains_of_makeDirectories (d := d) dir.draftsPath.parent
    rwa [hmake] at hg
  obtain ⟨place, hplace⟩ : ∃ place, made.at? place ≠ d.at? place := by
    by_contra hsame
    have hw := hgains.walk (fun place => not_not.mp fun hne => hsame ⟨place, hne⟩)
      h'.rooted.led.walk
    rw [h.missing] at hw
    cases hw
  obtain ⟨hnone, hdir⟩ := (hgains.at? place).resolve_left hplace
  have hout : ∀ way, way ≠ [] → place ≠ root ++ way := by
    rintro way hway rfl
    rw [h'.rooted.empty way hway] at hdir
    cases hdir
  refine ⟨place, hnone, (h'.rooted.same place hout).trans hdir, fun root' hw => ?_⟩
  rw [h'.rooted.leads.walk] at hw
  cases hw
  exact hout _ (by simp)

/-- A save that fails keeps the values, although it has made the root. -/
theorem kept_made (h : dir.Unmade s.1) {made : Disk}
    (hmake : s.1.makeDirectories dir.draftsPath.parent = (.ok (), made))
    (hmade : dir.Rests made root made) (h' : dir.Rests made root s'.1) {other : Key}
    (hl : dir.Littered made s'.1 root other) : dir.SameValues s s' := by
  have hreads : ∀ {key}, dir.Suits key → dir.ReadsAs s.1 s'.1 key := fun hk =>
    (h.readsAs hmade hk).trans (hl.readsAs hmade h' hk)
  refine ⟨fun key hk value => ⟨fun hf => ?_, fun hf => ?_⟩, ?_, fun place => h'.no_drafts⟩
  · obtain ⟨hsuits, -⟩ := file_eq_ok h'.rooted hk hf
    rw [(hreads hsuits).file, hf]
  · obtain ⟨e, he⟩ := h.file_error key
    rw [he] at hf
    cases hf
  · intro q hq hshown hshort now
    refine (ReadsAs.answer hq (fun key hk => ?_) now).symm
    rcases hshort with hshort | hclean
    · exact .of_short (hshown key hk) (hshort key hk) hreads
    · exact absurd (h.litters hmake h') hclean

end Unmade

/-! ## Requests -/

/-- The states of runs: the root is not made yet, or there are no drafts below it. -/
def Reached (dir : Directory) (d : Disk) : Prop :=
  dir.Unmade d ∨ ∃ base root, dir.Settled base ∧ dir.Rests base root d

/-- Without a file to move or remove nothing happens. -/
theorem answer_of_file_error {r : Request} (hsave : ∀ key content, r ≠ .save key content)
    (hf : ∀ key, ∃ e, dir.file key s.1 = .error e) (now : Time) :
    (dir.answer r now s).2 = s := by
  cases r with
  | contains _ | list _ | value _ | metadata _ => rfl
  | save key content => exact absurd rfl (hsave key content)
  | move source destination =>
    obtain ⟨e, he⟩ := hf source
    simp only [Directory.answer, Directory.move]
    cases dir.path destination with
    | error e => rfl
    | ok p => simp only [he]
  | delete key =>
    obtain ⟨e, he⟩ := hf key
    simp only [Directory.answer, Directory.remove, he]

namespace Unmade

/-- A save makes the root before it starts, and starts as if the root had been there. If it fails
before, nothing changes. The number of its draft does not matter. -/
theorem startSave (h : dir.Unmade d) (key : Key) :
    (∃ e, ∀ now serial, ∃ events n,
        dir.startSave key now (d, serial) = (⟨.error e, events⟩, d, n)) ∨
      ∃ made, d.makeDirectories dir.draftsPath.parent = (.ok (), made) ∧ dir.Vacant made ∧
        ∀ now serial,
          dir.startSave key now (d, serial) = dir.startSave key now (made, serial) := by
  by_cases hr : Disk.refuse dir.draftsPath = none
  case neg => exact Or.inl (startSave_refused hr d key)
  cases hpath : dir.path key with
  | error e =>
    refine Or.inl ⟨e, fun now serial => ⟨[], serial, ?_⟩⟩
    unfold Directory.startSave
    rw [hpath]
    rfl
  | ok p =>
    obtain ⟨made, hmake, hvacant⟩ := h.made
    obtain ⟨d', hmake', -, -, hdrafts⟩ := h.absent.makeDirectories h.sound (admits_drafts hr)
    obtain rfl : made = d' := by
      rw [hmake] at hmake'
      exact congrArg Prod.snd hmake'
    refine Or.inr ⟨made, hmake, hvacant, fun now serial => ?_⟩
    unfold Directory.startSave openDraft
    simp only [hpath, hdrafts]

theorem save_cases (h : dir.Unmade d) (key : Key) (content : Content) :
    (∃ e, ∀ now serial, ∃ events n,
        dir.save key content now (d, serial) = (⟨.error e, events⟩, d, n)) ∨
      ∃ made, d.makeDirectories dir.draftsPath.parent = (.ok (), made) ∧ dir.Vacant made ∧
        ∀ now serial,
          dir.save key content now (d, serial) = dir.save key content now (made, serial) := by
  unfold Directory.save
  rcases h.startSave key with ⟨e, hstart⟩ | ⟨made, hmake, hvacant, hstart⟩
  · refine Or.inl ⟨e, fun now serial => ?_⟩
    obtain ⟨events, n, hfailed⟩ := hstart now serial
    exact ⟨events, n, by rw [hfailed]⟩
  · exact Or.inr ⟨made, hmake, hvacant, fun now serial => by rw [hstart]⟩

/-- A save makes the root, unless it fails before. -/
theorem save (h : dir.Unmade s.1) (hk : IsShown key) (content : Content) (now : Time) :
    dir.Reached (dir.save key content now s).2.1 ∧
      ∀ e, (dir.save key content now s).1.result = .error e →
        dir.SameValues s (dir.save key content now s).2 := by
  obtain ⟨d, serial⟩ := s
  rcases h.save_cases key content with ⟨e, hsave⟩ | ⟨made, hmake, hvacant, hsave⟩
  · obtain ⟨events, n, hsave⟩ := hsave now serial
    rw [hsave]
    exact ⟨Or.inl h, fun _ _ => h.sameValues serial n⟩
  · obtain ⟨root, hmade⟩ := hvacant.rests
    obtain ⟨hrests, -, hfailed⟩ := hmade.save (fun _ => hvacant.settled) hk content now serial
    rw [hsave]
    exact ⟨Or.inr ⟨made, root, hvacant.settled, hrests⟩, fun e hresult =>
      h.kept_made hmake hmade hrests (hfailed e hresult)⟩

end Unmade

/-- **Requests.** What a run reaches is reached after one request more, and if that fails, the
values are kept. -/
theorem Reached.answer (h : dir.Reached s.1) {r : Request} (hr : ∀ key ∈ r.named, IsShown key)
    (now : Time) :
    dir.Reached (dir.answer r now s).2.1 ∧
      ∀ e, (dir.answer r now s).1.result = .error e → dir.SameValues s (dir.answer r now s).2 := by
  rcases h with hunmade | ⟨base, root, hb, hrests⟩
  · by_cases hsave : ∃ key content, r = .save key content
    · obtain ⟨key, content, rfl⟩ := hsave
      exact hunmade.save (hr key (by simp [Request.named])) content now
    · rw [answer_of_file_error (fun key content he => hsave ⟨key, content, he⟩)
        hunmade.file_error now]
      exact ⟨Or.inl hunmade, fun _ _ => hunmade.sameValues s.2 s.2⟩
  · obtain ⟨hrests', -, hfailed⟩ := hrests.answer (fun _ => hb) hr now
    refine ⟨Or.inr ⟨base, root, hb, hrests'⟩, fun e he => .of_littered hrests hrests' ?_⟩
    rcases hfailed e he with hu | ⟨key, -, hl⟩
    · exact Or.inl hu
    · exact Or.inr ⟨key, hl⟩

/-- Every state of a run on an empty root, or on one that is not made yet, is reached. -/
theorem Reached.after (h : dir.Reached d) (clock : Nat → Time) {requests : List Request}
    (hr : ∀ r ∈ requests, ∀ key ∈ r.named, IsShown key) :
    dir.Reached (dir.backend.after clock requests 0 (d, 0)).1 :=
  dir.backend.after_induction clock (P := fun _ s => dir.Reached s.1)
    (fun r hm _ now _ hs => (hs.answer (hr r hm) now).1) h

end Directory

end BlobStore
