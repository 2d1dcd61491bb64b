import BlobStore.Proofs.Directory.Draft
import BlobStore.Proofs.Directory.Reading
import BlobStore.Proofs.Disk.Parent

/-!
# What requests leave in a directory

No request leaves a draft, whether it succeeds or fails, and whatever keys it names. A request that
fails leaves the values alone. It may leave directories that were made for the file of a key, but
only if the disk could never have that file: then all of them could be made, but not the file.

## Main definitions

* `Directory.Settled`: the root stands in a directory and is no link
* `Directory.Littered`: nothing has changed but that directories were made for a key

## Main results

* `Directory.install_cases`: what comes of a file renamed into the place of any key
* `Directory.Rests.answer`: what a request leaves
-/

namespace BlobStore

/-- The key that a request puts a value under. -/
def Request.destination? : Request → Option Key
  | .save key _ => some key
  | .move _ destination => some destination
  | .contains _ | .list _ | .value _ | .delete _ | .metadata _ => none

namespace Directory

/-- The root stands in a directory, and the last name of its path is no link. -/
structure Settled (dir : Directory) (base : Disk) : Prop where
  whole : base.Whole
  unlinked : base.Unlinked dir.rootPath

/-- Where values can be, nothing has changed but that directories were made on the way to a key
whose file the disk cannot have. It could have had files in their places. -/
def Littered (dir : Directory) (d d' : Disk) (root : Place) (key : Key) : Prop :=
  ∀ way, Visible way → d'.at? (root ++ way) = d.at? (root ++ way) ∨
    (d.at? (root ++ way) = none ∧ d'.at? (root ++ way) = some .directory ∧
      way <+: key.names ∧ dir.Suits (.ofNames way) ∧ ¬ dir.Suits key)

variable {dir : Directory} {key : Key} {base d d' : Disk} {root : Place} {names : List FileName}
  {name : FileName} {serial : Nat} {draft : DraftFile} {bytes : Bytes}

theorem Untouched.littered (h : Untouched d d' root) (key : Key) : dir.Littered d d' root key :=
  fun way hv => Or.inl (h way hv)

/-! ## Files renamed -/

/-- Files are where they were. -/
theorem file_iff_of_grown {p : DiskPath} (h : d.Grown d' p root names) {place : Place}
    {file : DiskFile} : d'.at? place = some (.file file) ↔ d.at? place = some (.file file) := by
  rcases h place with he | ⟨hnone, hdir, -⟩
  · rw [he]
  · simp [hnone, hdir]

/-- Directories for a key do not show among the drafts. -/
theorem hidden_of_grown (h : d.Grown d' dir.rootPath root key.names) (hk : IsShown key)
    {way : List FileName} (hway : ¬ Visible way) : d'.at? (root ++ way) = d.at? (root ++ way) := by
  rcases h (root ++ way) with he | ⟨-, -, front, hne, hp, -, hplace⟩
  · exact he
  · obtain rfl := List.append_cancel_left hplace
    exact absurd (hk.visible hne hp) hway

theorem littered_of_grown (h : d.Grown d' dir.rootPath root key.names)
    (hplain : ∀ name ∈ key.names, isPlainName name)
    (hsame : dir.Suits key → ∀ place, d'.at? place = d.at? place) :
    dir.Littered d d' root key := by
  intro way hv
  by_cases hk : dir.Suits key
  · exact Or.inl (hsame hk _)
  · rcases h (root ++ way) with he | ⟨hnone, hdir, front, -, hp, ha, hplace⟩
    · exact Or.inl he
    · obtain rfl := List.append_cancel_left hplace
      have hnames : (Key.ofNames way).names = way :=
        names_ofNames fun name hm => hplain name (hp.subset hm)
      have hway : dir.Suits (.ofNames way) := by
        refine ⟨?_, ?_, ?_, ?_⟩ <;> rw [hnames]
        · exact fun name hm => hplain name (hp.subset hm)
        · exact ha.short
        · exact ha.accepted
        · exact hv.2
      exact Or.inr ⟨hnone, hdir, hp, hway, hk⟩

/-- A directory with one draft in which directories are made for a key. -/
theorem Drafting.grown (h : dir.Drafting base root d draft bytes)
    (hg : d.Grown d' dir.rootPath root key.names) (hr : d'.Rooted base dir.rootPath root)
    (hs : d'.Sound) (hk : IsShown key) : dir.Drafting base root d' draft bytes where
  rooted := hr
  sound := hs
  file := by
    obtain ⟨file, hat, hfile⟩ := h.file
    exact ⟨file, (file_iff_of_grown hg).mpr hat, hfile⟩
  alone place file hat := h.alone place file ((file_iff_of_grown hg).mp hat)
  idle way hway hdraft := by
    rw [hidden_of_grown hg hk (not_visible_draft way)]
    exact h.idle way hway hdraft

/-- What is left of a file that was renamed. -/
theorem renamed {others : List FileName} {other : FileName} {file : DiskFile}
    (hr : d.Rooted base dir.rootPath root) (hs : d.Sound)
    (hat : d.at? (root ++ (names ++ [name])) = some (.file file))
    (hdir : d.at? (root ++ others) = some .directory)
    (hfree : d.at? (root ++ (others ++ [other])) ≠ some .directory)
    (hne : names ++ [name] ≠ others ++ [other]) (hv : Visible (others ++ [other])) :
    let d' := (d.erase (root ++ (names ++ [name]))).put (root ++ (others ++ [other])) (.file file)
    d'.Rooted base dir.rootPath root ∧ d'.Sound ∧ d'.at? (root ++ (names ++ [name])) = none ∧
      ∀ way, ¬ Visible way → way ≠ names ++ [name] →
        d'.at? (root ++ way) = d.at? (root ++ way) := by
  obtain ⟨hgone, hput⟩ :=
    Disk.changed_rename hs (by simp) (root ++ (others ++ [other])) (by simp) hat
  refine ⟨hr.with_renamed hgone hput hat hdir hfree hne, hput.sound, ?_, ?_⟩
  · rw [hput.elsewhere hne]
    exact hgone.here
  · intro way hway hother
    rw [hput.elsewhere (hv.ne hway).symm, hgone.elsewhere hother]

/-- A file is renamed into the place of a key, or it stays and directories are left, but none for a
key that suits the disk. -/
theorem install_cases (hr : d.Rooted base dir.rootPath root) (hs : d.Sound)
    (hb : key = .root → dir.Settled base) (ha : Disk.Admits dir.rootPath (names ++ [name]))
    {file : DiskFile}
    (hat : d.at? (root ++ (names ++ [name])) = some (.file file)) {p : DiskPath}
    (hpath : dir.path key = .ok p) (hk : IsShown key) (hne : names ++ [name] ≠ key.names)
    (unmade unmoved : DiskError → StorageError) :
    (∃ e d', install (dir.rootPath.descend (names ++ [name])) p unmade unmoved d =
        (.error e, d') ∧ d'.Rooted base dir.rootPath root ∧ d'.Sound ∧
        d.Grown d' dir.rootPath root key.names ∧
        (dir.Suits key → ∀ place, d'.at? place = d.at? place)) ∨
      ∃ d', install (dir.rootPath.descend (names ++ [name])) p unmade unmoved d = (.ok (), d') ∧
        d'.Rooted base dir.rootPath root ∧ d'.Sound ∧
        d'.at? (root ++ (names ++ [name])) = none ∧
        ∀ way, ¬ Visible way → way ≠ names ++ [name] →
          d'.at? (root ++ way) = d.at? (root ++ way) := by
  obtain ⟨rfl, hplain⟩ := path_eq_ok hpath
  have hname := fun segment hs => isName_of_isPlain (hplain segment hs)
  rcases List.eq_nil_or_concat' key.names with hnames | ⟨others, other, hnames⟩ <;>
    rw [hnames] at hname hne ⊢
  · have hsettled := hb (Key.names_eq_nil.mp hnames)
    obtain ⟨e, hrename⟩ := hr.led.renameFile_root hsettled.unlinked
    refine Or.inl ⟨unmoved e, d, ?_, hr, hs, .refl _ _ _ _, fun _ _ => rfl⟩
    unfold install
    rw [DiskPath.descend_nil, hr.makeParent hsettled.whole]
    simp only [hrename d names name file hr ha hat]
  · have hother := hname other (by simp)
    have hadmits : dir.Suits key → Disk.Admits dir.rootPath (others ++ [other]) :=
      fun hk => hnames ▸ hk.admits
    have hv : Visible (others ++ [other]) :=
      hk.visible (by simp) (hnames ▸ List.prefix_refl key.names)
    have hmade := hr.makeDirectories_made hs fun segment hm => hname segment
      (List.mem_append_left _ hm)
    unfold install
    rw [DiskPath.parent_descend hother]
    generalize d.makeDirectories (dir.rootPath.descend others).bare = outcome at hmade ⊢
    obtain ⟨result, d₁⟩ := outcome
    obtain ⟨hr₁, hs₁, hgrown, hlast, hsame⟩ := hmade
    dsimp only at hr₁ hs₁ hgrown hlast hsame
    cases result with
    | error e =>
      refine Or.inl ⟨unmade e, d₁, rfl, hr₁, hs₁, hgrown.concat, ?_⟩
      intro hk place
      rw [hsame e rfl ((hadmits hk).of_append hr.led.accepted)]
    | ok =>
      have hat₁ := (file_iff_of_grown hgrown).mpr hat
      have hdir := hlast rfl
      simp only [hr₁.renameFile_eq ha hat₁ hname hne]
      cases hl : d₁.lookUp dir.rootPath root others other with
      | error e =>
        refine Or.inl ⟨unmoved e, d₁, rfl, hr₁, hs₁, hgrown.concat, ?_⟩
        intro hk
        rw [hr₁.lookUp_free (hadmits hk) hdir] at hl
        cases hl
      | ok found =>
        obtain ⟨hfound, -⟩ := Disk.lookUp_eq_ok hl
        have hdone := fun hfree => renamed hr₁ hs₁ hat₁ hdir hfree hne hv
        have hframe := fun way (hway : ¬ Visible way) =>
          hidden_of_grown (hnames ▸ hgrown.concat) hk hway
        rcases found with _ | ⟨_ | stands | target⟩
        · obtain ⟨hr₂, hs₂, hgone, hsame⟩ := hdone (by simp [← hfound])
          exact Or.inr ⟨_, rfl, hr₂, hs₂, hgone, fun way hway hother =>
            (hsame way hway hother).trans (hframe way hway)⟩
        · refine Or.inl ⟨_, d₁, rfl, hr₁, hs₁, hgrown.concat, ?_⟩
          intro _ place
          rcases hgrown place with he | ⟨hnone, -, front, -, ⟨more, rfl⟩, -, rfl⟩
          · exact he
          · have hthere := hfound.symm
            rw [hgrown.beyond, List.append_assoc front] at hthere
            rw [hr.above (by rw [hthere]; rfl) (by simp)] at hnone
            cases hnone
        · obtain ⟨hr₂, hs₂, hgone, hsame⟩ := hdone (by simp [← hfound])
          exact Or.inr ⟨_, rfl, hr₂, hs₂, hgone, fun way hway hother =>
            (hsame way hway hother).trans (hframe way hway)⟩
        · exact absurd hfound.symm (hr₁.linkless _ target)

/-! ## Empty directories -/

/-- What holds of a tree, and goes on to hold whenever an empty directory on the way to a file is
removed, holds once the directories on the way are removed. -/
theorem parents_induction {P : Disk → Prop} (hn : ∀ name ∈ names, DiskPath.IsName name)
    (tree : ∀ d, P d → d.Rooted base dir.rootPath root ∧ d.Sound)
    (step : ∀ d d' up, up ≠ [] → up <+: names → P d → d.Changed d' (root ++ up) none →
      d'.Rooted base dir.rootPath root → P d') (h : P d) :
    P (d.removeDirectories (dir.parents (dir.rootPath.descend names))) := by
  induction names using List.reverseRecOn generalizing d with
  | nil =>
    rw [DiskPath.descend_nil, parents_root]
    exact h
  | append_singleton front last ih =>
    rcases List.eq_nil_or_concat' front with rfl | ⟨up, name, rfl⟩
    · rw [List.nil_append, parents_single dir (hn last (by simp))]
      exact h
    · have hfront : ∀ segment ∈ up ++ [name], DiskPath.IsName segment :=
        fun segment hm => hn segment (List.mem_append_left _ hm)
      rw [parents_concat dir (by simp) hn, Disk.removeDirectories]
      obtain ⟨hr, hs⟩ := tree d h
      rcases hr.removeDirectory_cases hs hfront with ⟨e, he⟩ | ⟨d₁, he, hc, hr₁⟩
      · rw [he]
        exact h
      · rw [he]
        refine ih hfront (fun d d' way hway hp => step d d' way hway ?_) ?_
        · exact hp.trans (List.prefix_append _ _)
        · exact step d d₁ (up ++ [name]) (by simp) (List.prefix_append _ _) h hc hr₁

/-- Of the directories for a key, those are removed that are empty, and nothing else. -/
theorem pruned (hr : d.Rooted base dir.rootPath root) (hs : d.Sound)
    (hn : ∀ name ∈ key.names, DiskPath.IsName name) (hk : IsShown key) :
    (d.removeDirectories (dir.parents (dir.rootPath.descend key.names))).Rooted base
        dir.rootPath root ∧
      (d.removeDirectories (dir.parents (dir.rootPath.descend key.names))).Sound ∧
      ∀ way, ¬ Visible way →
        (d.removeDirectories (dir.parents (dir.rootPath.descend key.names))).at? (root ++ way) =
          d.at? (root ++ way) := by
  refine parents_induction (P := fun d' => d'.Rooted base dir.rootPath root ∧ d'.Sound ∧
    ∀ way, ¬ Visible way → d'.at? (root ++ way) = d.at? (root ++ way)) hn
    (fun d' h => ⟨h.1, h.2.1⟩) ?_ ⟨hr, hs, fun _ _ => rfl⟩
  rintro d₁ d₂ up hup hp ⟨-, -, hframe⟩ hc hr₂
  refine ⟨hr₂, hc.sound, fun way hway => ?_⟩
  rw [hc.elsewhere ((hk.visible hup hp).ne hway).symm, hframe way hway]

/-! ## Requests -/

/-- The file of a key stands at its place, where the disk can have it. -/
theorem file_place (hr : d.Rooted base dir.rootPath root) {file : DiskFile}
    (h : dir.file key d = .ok file) :
    (∀ name ∈ key.names, isPlainName name) ∧ Disk.Admits dir.rootPath key.names ∧
      ∃ names name, key.names = names ++ [name] ∧
        d.at? (root ++ (names ++ [name])) = some (.file file) := by
  unfold Directory.file at h
  cases hpath : dir.path key with
  | error e => simp [hpath] at h
  | ok p =>
    obtain ⟨rfl, hplain⟩ := path_eq_ok hpath
    rw [hpath] at h
    simp only at h
    have hstat : d.stat (dir.rootPath.descend key.names) = .ok (.file file) := by
      split at h
      · rename_i he
        rw [he, Except.ok.inj h]
      · cases h
      · cases h
    rcases List.eq_nil_or_concat' key.names with hnames | ⟨names, name, hnames⟩ <;>
      rw [hnames] at hplain hstat ⊢
    · rw [DiskPath.descend_nil, hr.leads.stat] at hstat
      cases hstat
    · have hn := fun segment hm => isName_of_isPlain (hplain segment hm)
      rw [hr.stat_eq hn] at hstat
      cases hl : d.lookUp dir.rootPath root names name with
      | error e => simp [hl] at hstat
      | ok found =>
        obtain ⟨hfound, -⟩ := Disk.lookUp_eq_ok hl
        have ha := Disk.lookUp_admits hn hl
        rw [hl] at hstat
        rcases found with _ | entry
        · cases hstat
        · cases hstat
          exact ⟨hplain, ha, names, name, rfl, hfound.symm⟩

/-- A key with a file suits the disk, and its file stands at its place. -/
theorem file_eq_ok (hr : d.Rooted base dir.rootPath root) (hk : IsShown key) {file : DiskFile}
    (h : dir.file key d = .ok file) :
    dir.Suits key ∧ ∃ names name, key.names = names ++ [name] ∧
      d.at? (root ++ (names ++ [name])) = some (.file file) := by
  obtain ⟨hplain, ha, hplace⟩ := file_place hr h
  exact ⟨⟨hplain, ha.short, ha.accepted, hk⟩, hplace⟩

namespace Rests

/-- What happens where values can be is no matter. -/
theorem congr (h : dir.Rests base root d) (hr : d'.Rooted base dir.rootPath root) (hs : d'.Sound)
    (hframe : ∀ way, ¬ Visible way → d'.at? (root ++ way) = d.at? (root ++ way)) :
    dir.Rests base root d' where
  rooted := hr
  sound := hs
  place := by
    rw [hframe _ (not_visible_draft [])]
    exact h.place
  idle way hway := by
    rw [hframe _ (not_visible_draft way)]
    exact h.idle way hway

/-- A save starts with an empty draft, or fails without one. -/
theorem startSave (h : dir.Rests base root d) (key : Key) (serial : Nat) (now : Time) :
    (∃ e events s, dir.startSave key now (d, serial) = (⟨.error e, events⟩, s) ∧
        dir.Rests base root s.1 ∧ Untouched d s.1 root ∧ s.2 ≤ serial + 1) ∨
      ∃ p number d', dir.path key = .ok p ∧ dir.HasRoom serial ∧
        dir.startSave key now (d, serial) =
          (.ok { file := some ⟨serial, number⟩ }, d', serial + 1) ∧
        dir.Drafting base root d' ⟨serial, number⟩ [] ∧ Untouched d d' root := by
  unfold Directory.startSave
  cases hpath : dir.path key with
  | error e => exact Or.inl ⟨e, [], _, rfl, h, .refl d root, Nat.le_succ _⟩
  | ok p =>
    rcases h.openDraft serial now with
      ⟨hroom, number, d', hopen, hdraft, hu⟩ | ⟨-, e, d', hopen, hrests, hu⟩
    · exact Or.inr ⟨p, number, d', rfl, hroom, by simp only [hopen], hdraft, hu⟩
    · refine Or.inl ⟨failure key e, (dir.dropDraft serial d').1, (d', serial + 1), ?_, hrests, hu,
        Nat.le_refl _⟩
      simp only [hopen, discard, hrests.dropDraft serial]

end Rests

/-- The end of a content leaves no draft, whether it can be stored or not. -/
theorem Drafting.finish (h : dir.Drafting base root d draft bytes)
    (hb : key = .root → dir.Settled base) (hroom : dir.HasRoom draft.serial) {p : DiskPath}
    (hpath : dir.path key = .ok p) (hk : IsShown key) :
    dir.Rests base root (dir.finishSave key { bytes, file := some draft } d).2 ∧
      ∀ e, (dir.finishSave key { bytes, file := some draft } d).1.result = .error e →
        dir.Littered d (dir.finishSave key { bytes, file := some draft } d).2 root key := by
  obtain ⟨file, hat, -, -⟩ := h.file
  have hne := dir.draft_ne hk draft.serial
  unfold finishSave
  simp only [hpath, draftPath_eq]
  rcases install_cases h.rooted h.sound hb hroom.admits hat hpath hk hne
      (fun e => StorageError.io key e.toIo) fun e => StorageError.io key e.toIo with
    ⟨e, d', hinstall, hr, hs, hgrown, hsame⟩ | ⟨d', hinstall, hr, hs, hgone, hframe⟩
  · obtain ⟨d'', hdrop, hrests, hu⟩ := (h.grown hgrown hr hs hk).drop hroom
    simp only [hinstall, discard, hdrop]
    refine ⟨hrests, fun _ _ way hv => ?_⟩
    rw [hu way hv]
    exact littered_of_grown hgrown (path_eq_ok hpath).2 hsame way hv
  · simp only [hinstall]
    exact ⟨h.rests hr hs hgone hframe, by simp⟩

namespace Rests

/-- A save leaves no draft; if it fails, the values are left alone. -/
theorem save (h : dir.Rests base root d) (hb : key = .root → dir.Settled base)
    (hk : IsShown key) (content : Content) (now : Time) (serial : Nat) :
    dir.Rests base root (dir.save key content now (d, serial)).2.1 ∧
      (dir.save key content now (d, serial)).2.2 ≤ serial + 1 ∧
      ∀ e, (dir.save key content now (d, serial)).1.result = .error e →
        dir.Littered d (dir.save key content now (d, serial)).2.1 root key := by
  unfold Directory.save
  rcases h.startSave key serial now with
    ⟨e, events, s, hstart, hrests, hu, hcount⟩ | ⟨p, number, d₁, hpath, hroom, hstart, hdraft, hu⟩
  · simp only [hstart]
    exact ⟨hrests, hcount, fun _ _ => hu.littered key⟩
  · rcases chunksOf content.producer.items with ⟨chunks, failure, unpulled⟩
    obtain ⟨d₂, happend, hdraft, hu₂⟩ := hdraft.append chunks.flatten now
    rw [List.nil_append] at happend hdraft
    have hu := hu.trans hu₂
    cases failure with
    | none =>
      obtain ⟨hrests, hfailed⟩ := hdraft.finish hb hroom hpath hk
      simp only [hstart, Reply.ok, happend]
      refine ⟨hrests, Nat.le_refl _, fun e he way hv => ?_⟩
      rw [← hu way hv]
      exact hfailed e he way hv
    | some cause =>
      obtain ⟨d₃, hdrop, hrests, hu₃⟩ := hdraft.drop hroom
      simp only [hstart, Reply.ok, happend, failSave, abandonSave, hdrop]
      exact ⟨hrests, Nat.le_refl _, fun _ _ => (hu.trans hu₃).littered key⟩

/-- A move leaves the directory without drafts; if it fails, the values are left alone. -/
theorem move {source destination : Key} (h : dir.Rests base root d)
    (hb : destination = .root → dir.Settled base) (hs : IsShown source)
    (hd : IsShown destination) :
    dir.Rests base root (dir.move source destination d).2 ∧
      ∀ e, (dir.move source destination d).1.result = .error e →
        dir.Littered d (dir.move source destination d).2 root destination := by
  have hself : dir.Littered d d root destination := (Untouched.refl d root).littered destination
  unfold Directory.move
  cases hpath : dir.path destination with
  | error e => exact ⟨h, fun _ _ => hself⟩
  | ok p =>
    cases hfile : dir.file source d with
    | error e => exact ⟨h, fun _ _ => hself⟩
    | ok file =>
      obtain ⟨hk, names, name, hsegments, hat⟩ := file_eq_ok h.rooted hs hfile
      rw [hk.path]
      simp only
      split
      · exact ⟨h, fun _ _ => hself⟩
      · rename_i hne
        have ha := hk.admits
        have hv : Visible source.names := hs.visible (by simp [hsegments]) (List.prefix_refl _)
        have hother : names ++ [name] ≠ destination.names := fun he =>
          hne (Key.names_inj.mp (hsegments.trans he))
        rw [hsegments] at ha hv ⊢
        rcases install_cases h.rooted h.sound hb ha hat hpath hd hother
            (fun e => StorageError.io destination e.toIo) (failure source) with
          ⟨e, d', hinstall, hr, hsound, hgrown, hsame⟩ | ⟨d', hinstall, hr, hsound, -, hframe⟩
        · simp only [hinstall]
          exact ⟨h.congr hr hsound fun way hway => hidden_of_grown hgrown hd hway,
            fun _ _ => littered_of_grown hgrown (path_eq_ok hpath).2 hsame⟩
        · obtain ⟨hr', hsound', hpruned⟩ := pruned hr hsound hk.admits.isName hs
          rw [hsegments] at hr' hsound' hpruned
          simp only [hinstall]
          refine ⟨h.congr hr' hsound' fun way hway => ?_, fun e he => by cases he⟩
          rw [hpruned way hway, hframe way hway (hv.ne hway).symm]

/-- A removal leaves the directory without drafts; if it fails, nothing has changed. -/
theorem remove (h : dir.Rests base root d) (hk : IsShown key) :
    dir.Rests base root (dir.remove key d).2 ∧
      ∀ e, (dir.remove key d).1.result = .error e → (dir.remove key d).2 = d := by
  unfold Directory.remove
  cases hfile : dir.file key d with
  | error e => exact ⟨h, fun _ _ => rfl⟩
  | ok file =>
    obtain ⟨hsuits, names, name, hsegments, hat⟩ := file_eq_ok h.rooted hk hfile
    have ha := hsuits.admits
    have hv : Visible key.names := hk.visible (by simp [hsegments]) (List.prefix_refl _)
    rw [hsuits.path]
    rw [hsegments] at ha hv ⊢
    obtain ⟨d', hremove, hc⟩ := h.rooted.removeFile h.sound ha hat
    obtain ⟨hr, hs, hpruned⟩ :=
      pruned (h.rooted.without_file hc hat) hc.sound hsuits.admits.isName hk
    rw [hsegments] at hr hs hpruned
    simp only [hremove]
    refine ⟨h.congr hr hs fun way hway => ?_, fun e he => by cases he⟩
    rw [hpruned way hway, hc.elsewhere (hv.ne hway).symm]

/-- **Requests.** A directory without drafts has none after a request either. If the request fails,
nothing has changed where values can be, but that directories may be left that were made for a value
to be put there. -/
theorem answer {s : Disk × Nat} (h : dir.Rests base root s.1) {r : Request}
    (hb : r.destination? = some .root → dir.Settled base) (hr : ∀ key ∈ r.named, IsShown key)
    (now : Time) :
    dir.Rests base root (dir.answer r now s).2.1 ∧ (dir.answer r now s).2.2 ≤ s.2 + 1 ∧
      ∀ e, (dir.answer r now s).1.result = .error e →
        Untouched s.1 (dir.answer r now s).2.1 root ∨ ∃ key, r.destination? = some key ∧
          dir.Littered s.1 (dir.answer r now s).2.1 root key := by
  obtain ⟨d, serial⟩ := s
  dsimp only at h
  cases r with
  | contains _ | list _ | value _ | metadata _ =>
    exact ⟨h, Nat.le_succ _, fun _ _ => Or.inl (.refl d root)⟩
  | save key content =>
    obtain ⟨hrests, hcount, hfailed⟩ :=
      h.save (hb ∘ congrArg some) (hr key (by simp [Request.named])) content now serial
    exact ⟨hrests, hcount, fun e he => Or.inr ⟨key, rfl, hfailed e he⟩⟩
  | move source destination =>
    obtain ⟨hrests, hfailed⟩ := h.move (hb ∘ congrArg some) (hr source (by simp [Request.named]))
      (hr destination (by simp [Request.named]))
    exact ⟨hrests, Nat.le_succ _, fun e he => Or.inr ⟨destination, rfl, hfailed e he⟩⟩
  | delete key =>
    obtain ⟨hrests, hfailed⟩ := h.remove (hr key (by simp [Request.named]))
    refine ⟨hrests, Nat.le_succ _, fun e he => Or.inl ?_⟩
    show Untouched d (dir.remove key d).2 root
    rw [hfailed e he]
    exact .refl d root

end Rests

end Directory

end BlobStore
