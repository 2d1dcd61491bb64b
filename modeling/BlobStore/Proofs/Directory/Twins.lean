import BlobStore.Proofs.Directory.Leftover
import BlobStore.Proofs.Disk.Alike
import BlobStore.Proofs.Observation

/-!
# Directories that look alike

Two directories at the same root that look alike where values can be answer every request alike, and
look alike afterwards: neither the drafts nor the numbers and instants of files count.

## Main definitions

* `Directory.Twins`: directories that look alike where values can be

## Main results

* `Directory.Twins.answer`: twins answer alike and stay twins
-/

namespace BlobStore

namespace Directory

variable {dir : Directory} {key : Key} {base d d' : Disk} {root : Place} {names : List FileName}
  {name : FileName} {serial : Nat} {draft draft' : DraftFile} {bytes : Bytes}

theorem Untouched.alike (h : Untouched d d' root) : d'.Alike d root Visible := fun way hv => by
  rw [h way hv]

/-- Directories at one root, without drafts, that look alike where values can be. -/
structure Twins (dir : Directory) (base : Disk) (root : Place) (d d' : Disk) : Prop where
  first : dir.Rests base root d
  second : dir.Rests base root d'
  alike : d.Alike d' root Visible

namespace Twins

/-! ## What is read -/

theorem stat (h : dir.Twins base root d d') (hk : IsShown key) {p : DiskPath}
    (hpath : dir.path key = .ok p) :
    (d.stat p).map DiskEntry.shown = (d'.stat p).map DiskEntry.shown := by
  obtain ⟨rfl, hplain⟩ := path_eq_ok hpath
  have hv : ∀ front, front ≠ [] → front <+: key.names → Visible front :=
    fun front hne hp => hk.visible hne hp
  rcases List.eq_nil_or_concat' key.names with hnames | ⟨names, name, hnames⟩ <;>
    rw [hnames] at hplain hv ⊢
  · rw [DiskPath.descend_nil, h.first.rooted.leads.stat, h.second.rooted.leads.stat]
  · exact h.alike.stat h.first.rooted h.second.rooted
      (fun segment hm => isName_of_isPlain (hplain segment hm)) hv

/-- The path of a key leads to files with the same bytes, or to no file and to the same in both. -/
theorem stat_cases (h : dir.Twins base root d d') (hk : IsShown key) {p : DiskPath}
    (hpath : dir.path key = .ok p) :
    ((∀ file, d.stat p ≠ .ok (.file file)) ∧ d'.stat p = d.stat p) ∨
      ∃ file file', d.stat p = .ok (.file file) ∧ d'.stat p = .ok (.file file') ∧
        file.bytes = file'.bytes := by
  have hstat := h.stat hk hpath
  rcases hs : d.stat p with e | ⟨_ | file | target⟩ <;>
    rcases hs' : d'.stat p with e' | ⟨_ | file' | target'⟩ <;>
      simp_all [Except.map, DiskEntry.shown]

/-- A key has a file with the same bytes in both, or in neither for the same reason. -/
theorem file_cases (h : dir.Twins base root d d') (hk : IsShown key) :
    (∃ e, dir.file key d = .error e ∧ dir.file key d' = .error e) ∨
      ∃ file file', dir.file key d = .ok file ∧ dir.file key d' = .ok file' ∧
        file.bytes = file'.bytes := by
  unfold Directory.file
  cases hpath : dir.path key with
  | error e => exact Or.inl ⟨e, rfl, rfl⟩
  | ok p =>
    rcases h.stat_cases hk hpath with ⟨hnone, hsame⟩ | ⟨file, file', hs, hs', hbytes⟩
    · simp only [hsame]
      rcases hs : d.stat p with e | ⟨_ | file | target⟩
      case ok.file => exact absurd hs (hnone file)
      all_goals exact Or.inl ⟨_, rfl, rfl⟩
    · simp only [hs, hs']
      exact Or.inr ⟨file, file', rfl, rfl, hbytes⟩

theorem contains (h : dir.Twins base root d d') (hk : IsShown key) :
    dir.contains key d = dir.contains key d' := by
  unfold Directory.contains
  cases hpath : dir.path key with
  | error e => rfl
  | ok p =>
    rcases h.stat_cases hk hpath with ⟨-, hsame⟩ | ⟨file, file', hs, hs', -⟩
    · simp only [hsame]
    · simp only [hs, hs']

/-- Both show the same keys of the files below a place where values can be. -/
theorem listed (h : dir.Twins base root d d') {scope : Key} (hk : IsShown scope) :
    listed scope (root ++ scope.names) d = listed scope (root ++ scope.names) d' := by
  refine listed_congr h.first.sound h.second.sound hk fun way hv => ⟨?_, ?_⟩
  · rintro ⟨file, hat⟩
    obtain ⟨file', hat', -⟩ := h.alike.file hv hat
    exact ⟨file', hat'⟩
  · rintro ⟨file, hat⟩
    obtain ⟨file', hat', -⟩ := h.alike.symm.file hv hat
    exact ⟨file', hat'⟩

theorem list (h : dir.Twins base root d d') {scope : Key} (hk : IsShown scope) :
    dir.list scope d = dir.list scope d' := by
  cases hpath : dir.path scope with
  | error e =>
    rw [list_of_path_error hpath, list_of_path_error hpath]
  | ok p =>
    rw [list_eq_stat h.first.rooted h.first.sound hpath,
      list_eq_stat h.second.rooted h.second.sound hpath, h.listed hk]
    rcases h.stat_cases hk hpath with ⟨-, hsame⟩ | ⟨file, file', hs, hs', -⟩
    · rw [hsame]
    · rw [hs, hs']

end Twins

/-! ## Files renamed -/

/-- A file is renamed into the place of a key in both of two directories that look alike, or in
neither, if its old name does not tell them apart. -/
theorem install_alike {others others' : List FileName} {other other' : FileName}
    {file file' : DiskFile} (h : d.Alike d' root Visible) (hr : d.Rooted base dir.rootPath root)
    (hr' : d'.Rooted base dir.rootPath root) (hs : d.Sound) (hs' : d'.Sound)
    (hb : key = .root → dir.Settled base) (ha : Disk.Admits dir.rootPath (others ++ [other]))
    (ha' : Disk.Admits dir.rootPath (others' ++ [other']))
    (hat : d.at? (root ++ (others ++ [other])) = some (.file file))
    (hat' : d'.at? (root ++ (others' ++ [other'])) = some (.file file'))
    (hbytes : file.bytes = file'.bytes)
    (hgone : ∀ d d' : Disk, d.Alike d' root Visible → (d.erase (root ++ (others ++ [other]))).Alike
      (d'.erase (root ++ (others' ++ [other']))) root Visible)
    {p : DiskPath} (hpath : dir.path key = .ok p) (hk : IsShown key)
    (hne : others ++ [other] ≠ key.names) (hne' : others' ++ [other'] ≠ key.names)
    (hbefore : key.names <+: others ↔ key.names <+: others')
    (unmade unmoved : DiskError → StorageError) :
    (install (dir.rootPath.descend (others ++ [other])) p unmade unmoved d).1 =
        (install (dir.rootPath.descend (others' ++ [other'])) p unmade unmoved d').1 ∧
      (install (dir.rootPath.descend (others ++ [other])) p unmade unmoved d).2.Alike
        (install (dir.rootPath.descend (others' ++ [other'])) p unmade unmoved d').2 root
        Visible := by
  obtain ⟨rfl, hplain⟩ := path_eq_ok hpath
  have hname := fun segment hs => isName_of_isPlain (hplain segment hs)
  have hv : ∀ front, front ≠ [] → front <+: key.names → Visible front :=
    fun front hne hp => hk.visible hne hp
  rcases List.eq_nil_or_concat' key.names with hnames | ⟨names, name, hnames⟩ <;>
    rw [hnames] at hname hne hne' hbefore hv ⊢
  · have hsettled := hb (Key.names_eq_nil.mp hnames)
    obtain ⟨e, hrename⟩ := hr.led.renameFile_root hsettled.unlinked
    unfold install
    rw [DiskPath.descend_nil, hr.makeParent hsettled.whole, hr'.makeParent hsettled.whole]
    simp only [hrename d _ _ _ hr ha hat, hrename d' _ _ _ hr' ha' hat']
    exact ⟨trivial, h⟩
  · have hfirst := fun segment hm => hname segment (List.mem_append_left [name] hm)
    have hmade := hr.makeDirectories_made hs hfirst
    have hmade' := hr'.makeDirectories_made hs' hfirst
    obtain ⟨hresult, hafter⟩ := h.makeDirectories hr hr' hs hs' hfirst
      fun front hne hp => hv front hne (hp.trans (List.prefix_append _ _))
    unfold install
    rw [DiskPath.parent_descend (hname name (by simp))]
    generalize d.makeDirectories (dir.rootPath.descend names).bare = outcome
      at hmade hresult hafter ⊢
    generalize d'.makeDirectories (dir.rootPath.descend names).bare = outcome'
      at hmade' hresult hafter ⊢
    obtain ⟨result, d₁⟩ := outcome
    obtain ⟨result', d₁'⟩ := outcome'
    dsimp only at hresult hafter
    subst hresult
    cases result with
    | error e => exact ⟨rfl, hafter⟩
    | ok =>
      have hat₁ := (file_iff_of_grown hmade.grown).mpr hat
      have hat₁' := (file_iff_of_grown hmade'.grown).mpr hat'
      rcases (hafter.renameFile hmade.rooted hmade'.rooted hv ha ha' hat₁ hat₁' hbytes
          (hgone _ _ hafter) hname hne hne' hbefore).cases with
        ⟨e, he, he'⟩ | ⟨d₂, d₂', he, he', h₂⟩
      · simp only [he, he']
        exact ⟨trivial, hafter⟩
      · simp only [he, he']
        exact ⟨trivial, h₂⟩

/-- Of the directories for a key, the same are removed from two directories that look alike. -/
theorem pruned_alike (h : d.Alike d' root Visible) (hr : d.Rooted base dir.rootPath root)
    (hr' : d'.Rooted base dir.rootPath root) (hs : d.Sound) (hs' : d'.Sound)
    {names : List FileName} (hn : ∀ name ∈ names, DiskPath.IsName name)
    (hk : ∀ front, front ≠ [] → front <+: names → Visible front) :
    (d.removeDirectories (dir.parents (dir.rootPath.descend names))).Alike
      (d'.removeDirectories (dir.parents (dir.rootPath.descend names))) root Visible := by
  induction names using List.reverseRecOn generalizing d d' with
  | nil =>
    rw [DiskPath.descend_nil, parents_root]
    exact h
  | append_singleton front last ih =>
    rcases List.eq_nil_or_concat' front with rfl | ⟨up, name, rfl⟩
    · rw [List.nil_append, parents_single dir (hn last (by simp))]
      exact h
    · have hfront : ∀ segment ∈ up ++ [name], DiskPath.IsName segment :=
        fun segment hm => hn segment (List.mem_append_left _ hm)
      have habove : up ++ [name] <+: up ++ [name] ++ [last] := List.prefix_append _ _
      have hfirst : ∀ front, front ≠ [] → front <+: up ++ [name] → Visible front :=
        fun front hne hp => hk front hne (hp.trans habove)
      have hagree := h.removeDirectory hr hr' hfront hfirst hs hs' fun way =>
        (hk _ (by simp) habove).append way
      rw [parents_concat dir (by simp) hn, Disk.removeDirectories, Disk.removeDirectories]
      rcases hr.removeDirectory_cases hs hfront with ⟨e, he⟩ | ⟨d₁, he, hc, hr₁⟩ <;>
        rcases hr'.removeDirectory_cases hs' hfront with ⟨e', he'⟩ | ⟨d₁', he', hc', hr₁'⟩ <;>
          rw [he, he'] at hagree
      · rw [he, he']
        exact h
      · exact hagree.elim
      · exact hagree.elim
      · rw [he, he']
        exact ih hagree hr₁ hr₁' hc.sound hc'.sound hfront hfirst

/-! ## Requests -/

/-- The ends of contents with the same bytes are answered alike. -/
theorem Drafting.finish_alike (h : dir.Drafting base root d draft bytes)
    (h' : dir.Drafting base root d' draft' bytes) (ha : d.Alike d' root Visible)
    (hb : key = .root → dir.Settled base) (hroom : dir.HasRoom draft.serial)
    (hroom' : dir.HasRoom draft'.serial) {p : DiskPath} (hpath : dir.path key = .ok p)
    (hk : IsShown key) :
    (dir.finishSave key { bytes, file := some draft } d).1.result =
        (dir.finishSave key { bytes, file := some draft' } d').1.result ∧
      (dir.finishSave key { bytes, file := some draft } d).2.Alike
        (dir.finishSave key { bytes, file := some draft' } d').2 root Visible := by
  obtain ⟨file, hat, -, hbytes⟩ := h.file
  obtain ⟨file', hat', -, hbytes'⟩ := h'.file
  have hne := dir.draft_ne hk
  have hgone : ∀ d d' : Disk, d.Alike d' root Visible →
      (d.erase (root ++ ([draftsName] ++ [dir.draftName draft.serial]))).Alike
        (d'.erase (root ++ ([draftsName] ++ [dir.draftName draft'.serial]))) root Visible :=
    fun d d' ha => ((ha.erase_unseen (by simp) (not_visible_draft _)).symm.erase_unseen (by simp)
      (not_visible_draft _)).symm
  let blame := fun (e : DiskError) => StorageError.io key e.toIo
  obtain ⟨hresult, hafter⟩ := install_alike ha h.rooted h'.rooted h.sound h'.sound hb hroom.admits
    hroom'.admits hat hat' (hbytes.trans hbytes'.symm) hgone hpath hk (hne _) (hne _) Iff.rfl
    blame blame
  unfold finishSave
  simp only [hpath, draftPath_eq]
  rcases install_cases h.rooted h.sound hb hroom.admits hat hpath hk (hne _) blame blame with
    ⟨e, d₁, he, hr, hs, hgrown, -⟩ | ⟨d₁, he, -⟩ <;>
  rcases install_cases h'.rooted h'.sound hb hroom'.admits hat' hpath hk (hne _) blame blame with
    ⟨e', d₁', he', hr', hs', hgrown', -⟩ | ⟨d₁', he', -⟩ <;>
  rw [he, he'] at hresult hafter <;> simp only [he, he', blame]
  · obtain ⟨d₂, hdrop, -, hu⟩ := (h.grown hgrown hr hs hk).drop hroom
    obtain ⟨d₂', hdrop', -, hu'⟩ := (h'.grown hgrown' hr' hs' hk).drop hroom'
    simp only [discard, hdrop, hdrop']
    exact ⟨hresult, hu.alike.trans (hafter.trans hu'.alike.symm)⟩
  · cases hresult
  · cases hresult
  · exact ⟨trivial, hafter⟩

namespace Twins

/-- The numbers of the drafts do not count, if there is room for both or for neither. -/
theorem save (h : dir.Twins base root d d') (hb : key = .root → dir.Settled base)
    (hk : IsShown key) {serial' : Nat} (hroom : dir.HasRoom serial ↔ dir.HasRoom serial')
    (content : Content) (now now' : Time) :
    (dir.save key content now (d, serial)).1.result =
        (dir.save key content now' (d', serial')).1.result ∧
      (dir.save key content now (d, serial)).2.1.Alike
        (dir.save key content now' (d', serial')).2.1 root Visible := by
  unfold Directory.save
  rcases chunksOf content.producer.items with ⟨chunks, failure, unpulled⟩
  cases hpath : dir.path key with
  | error e =>
    simp only [Directory.startSave, hpath]
    exact ⟨rfl, h.alike⟩
  | ok p =>
    rcases h.first.openDraft serial now with
      ⟨hhas, number, d₁, hopen, hdraft, hu₁⟩ | ⟨hnone, e, d₁, hopen, hrests, hu₁⟩ <;>
    rcases h.second.openDraft serial' now' with
      ⟨hhas', number', d₁', hopen', hdraft', hu₁'⟩ | ⟨hnone', e', d₁', hopen', hrests', hu₁'⟩
    · obtain ⟨d₂, happend, hdraft, hu₂⟩ := hdraft.append chunks.flatten now
      obtain ⟨d₂', happend', hdraft', hu₂'⟩ := hdraft'.append chunks.flatten now'
      rw [List.nil_append] at happend happend' hdraft hdraft'
      have hu := hu₁.trans hu₂
      have hu' := hu₁'.trans hu₂'
      have ha := hu.alike.trans (h.alike.trans hu'.alike.symm)
      simp only [Directory.startSave, hpath, hopen, hopen', Reply.ok, happend, happend']
      cases failure with
      | none => exact hdraft.finish_alike hdraft' ha hb hhas hhas' hpath hk
      | some cause =>
        obtain ⟨d₃, hdrop, -, hu₃⟩ := hdraft.drop hhas
        obtain ⟨d₃', hdrop', -, hu₃'⟩ := hdraft'.drop hhas'
        simp only [failSave, abandonSave, hdrop, hdrop']
        exact ⟨trivial, hu₃.alike.trans (ha.trans hu₃'.alike.symm)⟩
    · exact absurd (hroom.mp hhas) hnone'
    · exact absurd (hroom.mpr hhas') hnone
    · obtain rfl : e = e' := by
        have he := h.first.openDraft_shortage hnone now
        have he' := h.second.openDraft_shortage hnone' now'
        rw [hopen] at he
        rw [hopen'] at he'
        exact Except.error.inj (he.trans he'.symm)
      simp only [Directory.startSave, hpath, hopen, hopen', discard, hrests.dropDraft,
        hrests'.dropDraft]
      exact ⟨trivial, hu₁.alike.trans (h.alike.trans hu₁'.alike.symm)⟩

theorem move (h : dir.Twins base root d d') {source destination : Key}
    (hb : destination = .root → dir.Settled base) (hs : IsShown source)
    (hd : IsShown destination) :
    (dir.move source destination d).1.result = (dir.move source destination d').1.result ∧
      (dir.move source destination d).2.Alike (dir.move source destination d').2 root Visible := by
  unfold Directory.move
  cases hpath : dir.path destination with
  | error e => exact ⟨rfl, h.alike⟩
  | ok p =>
    rcases h.file_cases hs with ⟨e, hfile, hfile'⟩ | ⟨file, file', hfile, hfile', hbytes⟩
    · simp only [hfile, hfile']
      exact ⟨trivial, h.alike⟩
    · obtain ⟨hk, names, name, hsegments, hat⟩ := file_eq_ok h.first.rooted hs hfile
      obtain ⟨-, names', name', hsegments', hat'⟩ := file_eq_ok h.second.rooted hs hfile'
      rw [← hsegments', hsegments] at hat'
      simp only [hfile, hfile', hk.path]
      by_cases hsd : source = destination
      · rw [if_pos hsd, if_pos hsd]
        exact ⟨rfl, h.alike⟩
      · have ha := hk.admits
        have hother : names ++ [name] ≠ destination.names := fun he =>
          hsd (Key.names_inj.mp (hsegments.trans he))
        rw [hsegments] at ha ⊢
        rw [if_neg hsd, if_neg hsd]
        let blame := fun (e : DiskError) => StorageError.io destination e.toIo
        obtain ⟨hresult, hafter⟩ := install_alike h.alike h.first.rooted h.second.rooted
          h.first.sound h.second.sound hb ha ha hat hat' hbytes
          (fun _ _ ha => ha.erase (by simp)) hpath hd hother hother Iff.rfl blame (failure source)
        rcases install_cases h.first.rooted h.first.sound hb ha hat hpath hd hother blame
            (failure source) with ⟨e, d₁, he, -⟩ | ⟨d₁, he, hr, hsound, -⟩ <;>
        rcases install_cases h.second.rooted h.second.sound hb ha hat' hpath hd hother blame
            (failure source) with ⟨e', d₁', he', -⟩ | ⟨d₁', he', hr', hsound', -⟩ <;>
        rw [he, he'] at hresult hafter <;> simp only [he, he', blame]
        · exact ⟨hresult, hafter⟩
        · cases hresult
        · cases hresult
        · have hpruned := pruned_alike hafter hr hr' hsound hsound' hk.admits.isName
            fun front hne hp => hs.visible hne hp
          rw [hsegments] at hpruned
          exact ⟨trivial, hpruned⟩

theorem remove (h : dir.Twins base root d d') (hk : IsShown key) :
    (dir.remove key d).1.result = (dir.remove key d').1.result ∧
      (dir.remove key d).2.Alike (dir.remove key d').2 root Visible := by
  unfold Directory.remove
  rcases h.file_cases hk with ⟨e, hfile, hfile'⟩ | ⟨file, file', hfile, hfile', -⟩
  · simp only [hfile, hfile']
    exact ⟨trivial, h.alike⟩
  · obtain ⟨hsuits, names, name, hsegments, hat⟩ := file_eq_ok h.first.rooted hk hfile
    obtain ⟨-, names', name', hsegments', hat'⟩ := file_eq_ok h.second.rooted hk hfile'
    rw [← hsegments', hsegments] at hat'
    have ha := hsuits.admits
    simp only [hfile, hfile', hsuits.path]
    rw [hsegments] at ha ⊢
    obtain ⟨d₁, hremove, hc⟩ := h.first.rooted.removeFile h.first.sound ha hat
    obtain ⟨d₁', hremove', hc'⟩ := h.second.rooted.removeFile h.second.sound ha hat'
    have hagree := h.alike.removeFile h.first.rooted h.second.rooted ha.isName
      fun front hne hp => hk.visible hne (hsegments ▸ hp)
    rw [hremove, hremove'] at hagree
    simp only [hremove, hremove']
    have hpruned := pruned_alike hagree (h.first.rooted.without_file hc hat)
      (h.second.rooted.without_file hc' hat') hc.sound hc'.sound hsuits.admits.isName
        fun front hne hp => hk.visible hne hp
    rw [hsegments] at hpruned
    exact ⟨trivial, hpruned⟩

/-- **Twins.** Twins answer every request alike, and are twins afterwards. -/
theorem answer {s s' : Disk × Nat} (h : dir.Twins base root s.1 s'.1) {r : Request}
    (hb : r.destination? = some .root → dir.Settled base)
    (hroom : dir.HasRoom s.2 ↔ dir.HasRoom s'.2)
    (hr : ∀ key ∈ r.named, IsShown key) (now now' : Time) :
    (dir.answer r now s).1.result.map r.shown = (dir.answer r now' s').1.result.map r.shown ∧
      dir.Twins base root (dir.answer r now s).2.1 (dir.answer r now' s').2.1 := by
  obtain ⟨hfirst, -, -⟩ := h.first.answer hb hr now
  obtain ⟨hsecond, -, -⟩ := h.second.answer hb hr now'
  suffices hboth : (dir.answer r now s).1.result.map r.shown =
        (dir.answer r now' s').1.result.map r.shown ∧
      (dir.answer r now s).2.1.Alike (dir.answer r now' s').2.1 root Visible from
    ⟨hboth.1, hfirst, hsecond, hboth.2⟩
  obtain ⟨d, serial⟩ := s
  obtain ⟨d', serial'⟩ := s'
  dsimp only at h hroom
  cases r with
  | contains key =>
    have hk := hr key (by simp [Request.named])
    simp only [Directory.answer, h.contains hk]
    exact ⟨trivial, h.alike⟩
  | list scope =>
    have hk := hr scope (by simp [Request.named])
    simp only [Directory.answer, h.list hk]
    exact ⟨trivial, h.alike⟩
  | value key =>
    refine ⟨?_, h.alike⟩
    rcases h.file_cases (hr key (by simp [Request.named])) with
      ⟨e, hfile, hfile'⟩ | ⟨file, file', hfile, hfile', hbytes⟩
    · simp only [Directory.answer, hfile, hfile']
    · simp only [Directory.answer, hfile, hfile', Except.map, Request.shown, Directory.content,
        hbytes]
  | metadata key =>
    refine ⟨?_, h.alike⟩
    rcases h.file_cases (hr key (by simp [Request.named])) with
      ⟨e, hfile, hfile'⟩ | ⟨file, file', hfile, hfile', hbytes⟩
    · simp only [Directory.answer, hfile, hfile']
    · simp [Directory.answer, hfile, hfile', Except.map, Request.shown, Directory.describe, hbytes,
        Meta.size, Meta.read]
  | save key content =>
    obtain ⟨hresult, halike⟩ :=
      h.save (hb ∘ congrArg some) (hr key (by simp [Request.named])) hroom content now now'
    exact ⟨congrArg (Except.map _) hresult, halike⟩
  | move source destination =>
    obtain ⟨hresult, halike⟩ := h.move (hb ∘ congrArg some) (hr source (by simp [Request.named]))
      (hr destination (by simp [Request.named]))
    exact ⟨congrArg (Except.map _) hresult, halike⟩
  | delete key =>
    obtain ⟨hresult, halike⟩ := h.remove (hr key (by simp [Request.named]))
    exact ⟨congrArg (Except.map _) hresult, halike⟩

end Twins

end Directory

end BlobStore
