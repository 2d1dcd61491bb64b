import BlobStore.Proofs.Content
import BlobStore.Proofs.Directory.Draft
import BlobStore.Proofs.Directory.Reading

/-!
# Files renamed into place

A save in a directory writes a draft, and renames it into the place of its key once the content is
complete. The place must not be taken by a directory, and none of the directories above it by a
file; so it is if no stored key is the beginning of the saved one, nor the other way round.

## Main definitions

* `Directory.Holds`: a directory holds some contents, and no draft
* `Directory.Drafts`: it holds one draft beside its contents
* `Directory.IsFree`: keys that no stored key is in the way of

## Main results

* `Directory.install_free`: a file is renamed into the place of a key
* `Directory.Holds.save`: what a save answers and leaves
-/

namespace BlobStore

namespace Directory

/-- A key that is not the root, and that no stored key begins with or is the beginning of, itself
apart. -/
def IsFree (c : Contents) (key : Key) : Prop :=
  key ≠ Key.root ∧ ∀ k, (c k).isSome → ¬ k.Under key ∧ ¬ key.Under k

variable {dir : Directory} {key : Key} {base d d' : Disk} {root : Place} {c : Contents}

/-- A directory at `root` holds some contents and no draft; elsewhere the disk is as it was. -/
structure Holds (dir : Directory) (base : Disk) (root : Place) (d : Disk) (c : Contents) :
    Prop where
  rooted : d.Rooted base dir.rootPath root
  sound : d.Sound
  stores : Stores d root c fun _ => False
  place : d.at? (root ++ [draftsName]) = none ∨ d.at? (root ++ [draftsName]) = some .directory
  idle : ∀ way, way ≠ [] → d.at? (root ++ draftsName :: way) = none

/-! ## Renaming -/

/-- No file is above the place of a free key, and no directory is there. -/
theorem Stores.free (h : Stores d root c fun _ => False) (hr : d.Rooted base dir.rootPath root)
    (hk : dir.Suits key) (hf : IsFree c key) :
    (∀ front, front <+: key.names → front ≠ key.names →
      ∀ file, d.at? (root ++ front) ≠ some (.file file)) ∧
      d.at? (root ++ key.names) ≠ some .directory := by
  obtain ⟨hroot, hfree⟩ := hf
  have hv := hk.visible hroot
  constructor
  · rintro front ⟨rest, hrest⟩ hne file hat
    have hfront : front ≠ [] := by
      rintro rfl
      rw [List.append_nil, hr.directory] at hat
      cases hat
    have hvalue := (h.file front ((hrest ▸ hv).of_append hfront) file.bytes).mpr
      ⟨file, hat, rfl⟩
    obtain ⟨above, rfl, habove⟩ := isSome_valueAt (by rw [hvalue]; rfl : (valueAt c front).isSome)
    refine (hfree above habove).2 (under_iff_names.mpr ⟨rest, ?_, hrest.symm⟩)
    rintro rfl
    exact hne (by simpa using hrest)
  · intro hdir
    rcases h.held _ hv hdir with hspare | ⟨rest, hrest, hsome⟩
    · exact hspare
    · obtain ⟨below, hbelow, hsome⟩ := isSome_valueAt hsome
      exact (hfree below hsome).1 (under_iff_names.mpr ⟨rest, hrest, hbelow⟩)

/-- A file is renamed into the place of a free key, after the directories for it are made. -/
theorem install_free (hr : d.Rooted base dir.rootPath root) (hs : d.Sound) {names : List FileName}
    {name : FileName} (ha : Disk.Admits dir.rootPath (names ++ [name])) {file : DiskFile}
    (hat : d.at? (root ++ (names ++ [name])) = some (.file file)) (hk : dir.Suits key)
    (hroot : key ≠ Key.root)
    (habove : ∀ front, front <+: key.names → front ≠ key.names →
      ∀ file, d.at? (root ++ front) ≠ some (.file file))
    (hfree : d.at? (root ++ key.names) ≠ some .directory)
    (hne : names ++ [name] ≠ key.names) (unmade unmoved : DiskError → StorageError) :
    ∃ d₁ d₂ d₃, Directory.install (dir.rootPath.descend (names ++ [name]))
        (dir.rootPath.descend key.names) unmade unmoved d = (.ok (), d₃) ∧
      d.Paved d₁ root key.names.dropLast ∧
      d₁.Changed d₂ (root ++ (names ++ [name])) none ∧
      d₂.Changed d₃ (root ++ key.names) (some (.file file)) ∧
      d₃.Rooted base dir.rootPath root ∧ d₃.Sound := by
  have hb := hk.admits
  obtain ⟨others, other, hnames⟩ := List.eq_nil_or_concat' key.names |>.resolve_left
    (Key.names_eq_nil.not.mpr hroot)
  rw [hnames] at hb habove hfree hne ⊢
  rw [List.dropLast_concat]
  have hfront : ∀ front, front <+: others → ∀ file, d.at? (root ++ front) ≠ some (.file file) := by
    intro front hp
    apply habove front (hp.trans (List.prefix_append _ _))
    intro he
    have hlen := hp.length_le
    rw [he, List.length_append, List.length_singleton] at hlen
    omega
  obtain ⟨d₁, hmake, hpaved, hr₁, hs₁⟩ :=
    hr.makeDirectories hs (hb.of_append hr.led.accepted) hfront
  have hat₁ : d₁.at? (root ++ (names ++ [name])) = some (.file file) := hpaved.kept hat
  have hfree₁ : d₁.at? (root ++ (others ++ [other])) ≠ some .directory := by
    rw [hpaved.beyond]
    exact hfree
  obtain ⟨d₂, d₃, hrename, hc₂, hc₃⟩ :=
    hr₁.renameFile hs₁ ha hb hat₁ hpaved.last hfree₁ hne
  refine ⟨d₁, d₂, d₃, ?_, hpaved, hc₂, hc₃,
    hr₁.with_renamed hc₂ hc₃ hat₁ hpaved.last hfree₁ hne, hc₃.sound⟩
  unfold Directory.install
  rw [DiskPath.parent_descend (hb.isName other (by simp)), hmake]
  simp only [hrename]

/-! ## Drafts -/

/-- A directory at `root` holds some contents and one draft. -/
structure Drafts (dir : Directory) (base : Disk) (root : Place) (d : Disk) (c : Contents)
    (draft : DraftFile) (bytes : Bytes) : Prop where
  rooted : d.Rooted base dir.rootPath root
  sound : d.Sound
  stores : Stores d root c fun _ => False
  file : ∃ file,
    d.at? (root ++ ([draftsName] ++ [dir.draftName draft.serial])) = some (.file file) ∧
      file.number = draft.number ∧ file.bytes = bytes
  alone : ∀ place file, d.at? place = some (.file file) → file.number = draft.number →
    place = root ++ ([draftsName] ++ [dir.draftName draft.serial])
  idle : ∀ way, way ≠ [] → way ≠ [dir.draftName draft.serial] →
    d.at? (root ++ draftsName :: way) = none

variable {serial : Nat} {draft : DraftFile} {bytes : Bytes}

theorem Holds.rests (h : dir.Holds base root d c) : dir.Rests base root d :=
  ⟨h.rooted, h.sound, h.place, h.idle⟩

/-- Where nothing changes but the drafts, the contents stay. -/
theorem Rests.holds (h : dir.Rests base root d') (hu : Untouched d d' root)
    (hst : Stores d root c fun _ => False) : dir.Holds base root d' c :=
  ⟨h.rooted, h.sound, hst.congr hu, h.place, h.idle⟩

theorem Drafts.drafting (h : dir.Drafts base root d c draft bytes) :
    dir.Drafting base root d draft bytes :=
  ⟨h.rooted, h.sound, h.file, h.alone, h.idle⟩

theorem Drafting.drafts (h : dir.Drafting base root d' draft bytes) (hu : Untouched d d' root)
    (hst : Stores d root c fun _ => False) : dir.Drafts base root d' c draft bytes :=
  ⟨h.rooted, h.sound, hst.congr hu, h.file, h.alone, h.idle⟩

/-- A draft is opened, and nothing is in it. -/
theorem Holds.openDraft (h : dir.Holds base root d c) (hroom : dir.HasRoom serial) (now : Time) :
    ∃ number d', dir.openDraft serial now d = (.ok number, d') ∧
      dir.Drafts base root d' c ⟨serial, number⟩ [] := by
  rcases h.rests.openDraft serial now with ⟨-, number, d', hopen, hdraft, hu⟩ | ⟨hnone, -⟩
  · exact ⟨number, d', hopen, hdraft.drafts hu h.stores⟩
  · exact absurd hroom hnone

/-- Directories on the way to a value do not show where no value can be. -/
theorem hidden_of_paved (hp : d.Paved d' root key.names.dropLast)
    (hv : Visible key.names) {way : List FileName} (hway : ¬ Visible way) :
    d'.at? (root ++ way) = d.at? (root ++ way) := by
  rcases hp.at? (root ++ way) with he | ⟨-, -, front, hne, ⟨more, hmore⟩, hplace⟩
  · exact he
  · obtain rfl := List.append_cancel_left hplace
    obtain ⟨rest, hrest⟩ := List.dropLast_prefix key.names
    rw [← hrest, ← hmore, List.append_assoc] at hv
    exact absurd (hv.of_append hne) hway

namespace Drafts

/-- A piece is written behind what the draft holds. -/
theorem append (h : dir.Drafts base root d c draft bytes) (piece : Bytes) (now : Time) :
    ∃ d', appendDraft { bytes, file := some draft } piece now d =
        ({ bytes := bytes ++ piece, file := some draft }, d') ∧
      dir.Drafts base root d' c draft (bytes ++ piece) := by
  obtain ⟨d', happend, hdraft, hu⟩ := h.drafting.append piece now
  exact ⟨d', happend, hdraft.drafts hu h.stores⟩

/-- A draft is dropped without a trace. -/
theorem drop (h : dir.Drafts base root d c draft bytes) (hroom : dir.HasRoom draft.serial) :
    ∃ d', dir.dropDraft draft.serial d = ([], d') ∧ dir.Holds base root d' c := by
  obtain ⟨d', hdrop, hrests, hu⟩ := h.drafting.drop hroom
  exact ⟨d', hdrop, hrests.holds hu h.stores⟩

/-- A complete draft becomes the value of a free key. -/
theorem finish (h : dir.Drafts base root d c draft bytes) (hroom : dir.HasRoom draft.serial)
    (hk : dir.Suits key) (hf : IsFree c key) :
    (dir.finishSave key { bytes, file := some draft } d).1.result = .ok () ∧
      dir.Holds base root (dir.finishSave key { bytes, file := some draft } d).2
        (Function.update c key (some bytes)) := by
  obtain ⟨file, hat, -, rfl⟩ := h.file
  have hv := hk.visible hf.1
  have hne := dir.draft_ne hk.shown draft.serial
  obtain ⟨habove, hfree⟩ := h.stores.free h.rooted hk hf
  obtain ⟨d₁, d₂, d₃, hinstall, hpaved, hc₂, hc₃, hr₃, hs₃⟩ := install_free h.rooted h.sound
    hroom.admits hat hk hf.1 habove hfree hne
    (fun e => StorageError.io key e.toIo) fun e => StorageError.io key e.toIo
  have hframe : ∀ way, ¬ Visible way → way ≠ [draftsName] ++ [dir.draftName draft.serial] →
      d₃.at? (root ++ way) = d.at? (root ++ way) := by
    intro way hway hdraft
    rw [hc₃.elsewhere (hv.ne hway).symm, hc₂.elsewhere hdraft, hidden_of_paved hpaved hv hway]
  have hfinish : (dir.finishSave key { bytes := file.bytes, file := some draft } d).1.result =
      .ok () ∧ (dir.finishSave key { bytes := file.bytes, file := some draft } d).2 = d₃ := by
    unfold finishSave
    rw [hk.path]
    simp only [draftPath_eq, hinstall, and_self]
  rw [hfinish.2]
  have hgone : d₃.at? (root ++ ([draftsName] ++ [dir.draftName draft.serial])) = none := by
    rw [hc₃.elsewhere hne]
    exact hc₂.here
  have hrests := h.drafting.rests hr₃ hs₃ hgone hframe
  refine ⟨hfinish.1, hr₃, hs₃, ?_, hrests.place, hrests.idle⟩
  exact ((h.stores.paved hpaved).hidden hc₂ (not_visible_draft _)).put_paved hc₃ hv

end Drafts

/-- A save answers what becomes of its content, and stores it if it is complete. -/
theorem Holds.save (h : dir.Holds base root d c) (hk : dir.Suits key) (hf : IsFree c key)
    (hroom : dir.HasRoom serial) (content : Content) (now : Time) :
    (dir.save key content now (d, serial)).1.result =
        (content.drain.map fun _ => ()).mapError .content ∧
      dir.Holds base root (dir.save key content now (d, serial)).2.1
        ((Request.save key content).effect c) ∧
      (dir.save key content now (d, serial)).2.2 = serial + 1 := by
  obtain ⟨number, d₁, hopen, hdraft⟩ := h.openDraft hroom now
  have hstart : dir.startSave key now (d, serial) =
      (.ok { file := some ⟨serial, number⟩ }, d₁, serial + 1) := by
    unfold startSave
    simp only [hk.path, hopen]
  rcases hchunks : chunksOf content.producer.items with ⟨chunks, failure, unpulled⟩
  obtain ⟨d₂, happend, hdraft⟩ := hdraft.append chunks.flatten now
  rw [List.nil_append] at happend hdraft
  cases failure with
  | none =>
    have hdrain : content.drain = .ok chunks.flatten := by
      rw [Content.drain_eq_joined, joined, hchunks]
    obtain ⟨hresult, hholds⟩ := hdraft.finish hroom hk hf
    unfold Directory.save
    simp only [hstart, Reply.ok, hchunks, happend, hdrain, Request.effect]
    exact ⟨hresult, hholds, trivial⟩
  | some cause =>
    have hdrain : content.drain = .error (.producer cause) := by
      rw [Content.drain_eq_joined, joined, hchunks]
    obtain ⟨d₃, hdrop, hholds⟩ := hdraft.drop hroom
    unfold Directory.save
    simp only [hstart, Reply.ok, hchunks, happend, hdrain, Request.effect, failSave, abandonSave,
      hdrop]
    exact ⟨rfl, hholds, trivial⟩

end Directory

end BlobStore
