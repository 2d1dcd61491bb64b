import BlobStore.Proofs.Disk.Sound
import BlobStore.Proofs.Disk.Tree

/-!
# Changes in a tree of directories

What the calls that change a disk do to a tree below a directory. Each of them that succeeds changes
one place, or two if it renames a file; what it asks for is a matter of what stands in the tree.

## Main definitions

* `Disk.Paved`: a disk with directories made along some names

## Main results

* `Disk.Rooted.changed`: a tree stays one
* `Disk.Rooted.makeDirectories`: directories are made where no file is in the way
* `Disk.Rooted.createFile`, `Disk.Rooted.removeFile`, `Disk.Rooted.renameFile`: files
* `Disk.Rooted.removeDirectory`: empty directories
-/

namespace BlobStore

namespace Disk

variable {d d' base : Disk} {p : DiskPath} {root place : Place} {entry : DiskEntry}

/-! ## One place -/

namespace Rooted

variable {names way : List FileName} {name : FileName}

/-- A tree with one place changed is a tree, if what is put there stands in a directory and does not
stand in the way of anything. -/
theorem changed (h : d.Rooted base p root) {stands? : Option DiskEntry}
    (hc : d.Changed d' (root ++ way) stands?) (hway : way ≠ [])
    (hlink : ∀ target, stands? ≠ some (.link target))
    (hfits : stands? = some .directory → Admits p way)
    (habove : stands?.isSome → d.at? (root ++ way.dropLast) = some .directory)
    (hbelow : stands? = some .directory ∨
      ∀ more, more ≠ [] → d.at? (root ++ (way ++ more)) = none) :
    d'.Rooted base p root where
  led := h.led
  empty := h.empty
  same other ho := by
    rw [hc.at?, if_neg fun he => ho way hway he.symm]
    exact h.same other ho
  current := hc.current.trans h.current
  linkless other target := by
    rw [hc.at?]
    split
    · exact hlink target
    · exact h.linkless other target
  nested other name := by
    intro hsome
    rw [hc.at?] at hsome ⊢
    split at hsome
    · rename_i he
      obtain rfl := List.append_cancel_left he
      rw [List.dropLast_concat] at habove
      rw [if_neg (by simp)]
      exact habove hsome
    · have hdir := h.nested other name hsome
      split
      · rename_i he
        obtain rfl := List.append_cancel_left he
        rcases hbelow with hbelow | hbelow
        · exact hbelow
        · rw [hbelow [name] (by simp)] at hsome
          cases hsome
      · exact hdir
  fits other := by
    intro hat
    rw [hc.at?] at hat
    split at hat
    · rename_i he
      obtain rfl := List.append_cancel_left he
      exact hfits hat
    · exact h.fits other hat

theorem with_directory (h : d.Rooted base p root) (ha : Admits p (names ++ [name]))
    (hc : d.Changed d' (root ++ (names ++ [name])) (some .directory))
    (hdir : d.at? (root ++ names) = some .directory) : d'.Rooted base p root := by
  refine h.changed hc (by simp) (by simp) (fun _ => ha) ?_ (Or.inl rfl)
  intro _
  rw [List.dropLast_concat, hdir]

theorem with_file (h : d.Rooted base p root) {file : DiskFile}
    (hc : d.Changed d' (root ++ (names ++ [name])) (some (.file file)))
    (hdir : d.at? (root ++ names) = some .directory)
    (hfree : d.at? (root ++ (names ++ [name])) ≠ some .directory) : d'.Rooted base p root := by
  refine h.changed hc (by simp) (by simp) (by simp) ?_ (Or.inr fun more hm => h.leaf hfree hm)
  intro _
  rw [List.dropLast_concat, hdir]

theorem without (h : d.Rooted base p root)
    (hc : d.Changed d' (root ++ (names ++ [name])) none)
    (hempty : ∀ more, more ≠ [] → d.at? (root ++ (names ++ [name] ++ more)) = none) :
    d'.Rooted base p root :=
  h.changed hc (by simp) (by simp) (by simp) (by simp) (Or.inr hempty)

/-- There is nothing below a file. -/
theorem without_file (h : d.Rooted base p root)
    (hc : d.Changed d' (root ++ (names ++ [name])) none) {file : DiskFile}
    (hat : d.at? (root ++ (names ++ [name])) = some (.file file)) : d'.Rooted base p root :=
  h.without hc fun more hm => h.leaf (by rw [hat]; simp) hm

/-- A file moved to a place in a directory, where no directory is, leaves a tree. -/
theorem with_renamed (h : d.Rooted base p root) {d₁ : Disk} {others : List FileName}
    {other : FileName}
    {file : DiskFile} (hgone : d.Changed d₁ (root ++ (others ++ [other])) none)
    (hput : d₁.Changed d' (root ++ (names ++ [name])) (some (.file file)))
    (hat : d.at? (root ++ (others ++ [other])) = some (.file file))
    (hdir : d.at? (root ++ names) = some .directory)
    (hfree : d.at? (root ++ (names ++ [name])) ≠ some .directory)
    (hne : others ++ [other] ≠ names ++ [name]) : d'.Rooted base p root := by
  refine (h.without_file hgone hat).with_file hput ?_ ?_
  · rw [hgone.elsewhere, hdir]
    rintro rfl
    rw [hdir] at hat
    cases hat
  · rw [hgone.elsewhere hne.symm]
    exact hfree

end Rooted

/-! ## Directories -/

theorem Leads.isDirectory (h : d.Leads p place) : d.isDirectory p = true := by
  unfold Disk.isDirectory
  rw [h.stat]

/-- No directory is made where one is. -/
theorem Leads.makeDirectory (h : d.Leads p place) : ∃ e, d.makeDirectory p = .error e := by
  unfold Disk.makeDirectory
  split
  · exact ⟨_, rfl⟩
  · exact ⟨_, rfl⟩
  · rename_i here name hl
    split
    · exact ⟨_, rfl⟩
    · rename_i hat
      exfalso
      unfold Disk.locate at hl
      split at hl
      · cases hl
      · rename_i there name? ha
        split at hl
        · cases hl
        · rename_i hlong
          cases hl
          obtain ⟨front, hp, hdot, hup, hs⟩ := approach_eq_some ha
          obtain ⟨m, hm⟩ := strides_append hs
          have hw := h.way
          have hshort : isTooLong name = false := by simpa using hlong
          have ht : d.turn m here name = .absent (here ++ [name]) := by
            unfold turn
            rw [if_neg hdot, if_neg hup, hshort, hat]
            rfl
          rw [hp, List.append_assoc, hm, List.singleton_append, strides_cons, ht] at hw
          simp at hw

/-- A directory that is there is not made. -/
theorem Leads.ensureDirectory (h : d.Leads p place) : d.ensureDirectory p = .ok d := by
  obtain ⟨e, he⟩ := h.makeDirectory
  unfold Disk.ensureDirectory
  rw [he, h.isDirectory]
  rfl

/-- No directory is made where the way stops before. -/
theorem ensureDirectory_child {name : FileName} {e : DiskError} (hn : DiskPath.IsName name)
    (ha : refuse (p.child name) = none)
    (hw : d.strides .entry linkLimit (d.start p) (p.passes ++ [.text "."]) = .error e) :
    d.ensureDirectory (p.child name) = .error e := by
  have hs : d.start (p.child name) = d.start p := by
    rw [start, start, DiskPath.absolute_child hn.1]
  have happroach : d.approach (p.child name) = .error e := by
    unfold approach
    rw [ha, hs, DiskPath.passes_child hn.1, List.dropLast_concat, hw]
  have hwalk : d.walk (p.child name) = .error e := by
    unfold walk reach
    rw [ha, hs, DiskPath.steps_child hn.1]
    exact strides_append_error hw (by simp) .entry
  unfold Disk.ensureDirectory Disk.makeDirectory isDirectory locate stat
  rw [happroach, hwalk]
  rfl

/-- A path to a directory leads there also without what leads nowhere at its end. -/
theorem Leads.bare (h : d.Leads p place) (hp : p.parts ≠ []) : d.Leads p.bare place where
  accepted := refuse_bare h.accepted hp
  way := by
    obtain ⟨dots, he, hdots⟩ := DiskPath.passes_bare hp
    have hs : d.start p.bare = d.start p := by rw [start, start, DiskPath.absolute_bare hp]
    have hw := h.way
    rw [he, strides_append_dots hdots] at hw
    rw [hs]
    exact hw
  directory := h.directory

/-- Of a path to a directory, all directories are there. -/
theorem Leads.makeDirectories (h : d.Leads p place) :
    d.makeDirectories p.bare = (.ok (), d) := by
  unfold Disk.makeDirectories DiskPath.ancestry
  rw [DiskPath.parts_bare]
  by_cases hp : p.parts = []
  · rw [hp]
    rfl
  · obtain ⟨part, rest, hparts⟩ := List.exists_cons_of_ne_nil hp
    rw [hparts]
    show d.makeFirst (p.bare :: _) = _
    rw [makeFirst, (h.bare hp).ensureDirectory]

/-- A disk with directories made at the places of some names, one after the other. -/
structure Paved (d d' : Disk) (root : Place) (names : List FileName) : Prop where
  at? : ∀ place, d'.at? place = d.at? place ∨
    (d.at? place = none ∧ d'.at? place = some .directory ∧
      ∃ front, front ≠ [] ∧ front <+: names ∧ place = root ++ front)
  last : d'.at? (root ++ names) = some .directory

theorem Paved.refl {names : List FileName} (h : d.at? (root ++ names) = some .directory) :
    d.Paved d root names := ⟨fun _ => Or.inl rfl, h⟩

theorem Paved.concat {d'' : Disk} {names : List FileName} {name : FileName}
    (h : d.Paved d' root names)
    (hc : d'.Changed d'' (root ++ (names ++ [name])) (some .directory))
    (hat : d.at? (root ++ (names ++ [name])) = none) : d.Paved d'' root (names ++ [name]) where
  at? place := by
    rw [hc.at?]
    split
    · rename_i hp
      subst hp
      exact Or.inr ⟨hat, rfl, names ++ [name], by simp, List.prefix_refl _, rfl⟩
    · rcases h.at? place with he | ⟨hnone, hdir, front, hne, hp, hplace⟩
      · exact Or.inl he
      · exact Or.inr ⟨hnone, hdir, front, hne, hp.trans (List.prefix_append _ _), hplace⟩
  last := by rw [hc.at?, if_pos rfl]

/-- What stood there before stays. -/
theorem Paved.kept {names : List FileName} (h : d.Paved d' root names)
    (hat : d.at? place = some entry) : d'.at? place = some entry := by
  rcases h.at? place with he | ⟨hnone, -⟩
  · rw [he, hat]
  · rw [hnone] at hat
    cases hat

/-- Beyond the names nothing is made. -/
theorem Paved.beyond {names : List FileName} {name : FileName} (h : d.Paved d' root names) :
    d'.at? (root ++ (names ++ [name])) = d.at? (root ++ (names ++ [name])) := by
  rcases h.at? (root ++ (names ++ [name])) with he | ⟨-, -, front, -, hp, hplace⟩
  · exact he
  · obtain rfl := List.append_cancel_left hplace
    have hlen := hp.length_le
    simp at hlen

namespace Rooted

variable {names way : List FileName} {name : FileName}

/-- The names of a directory in a tree lead to it. -/
theorem leads_descend (h : d.Rooted base p root) (hdir : d.at? (root ++ names) = some .directory) :
    d.Leads (p.descend names) (root ++ names) := by
  refine h.leads.descend (h.fits names hdir) fun front _ hp => ?_
  obtain ⟨more, rfl⟩ := hp
  by_cases hmore : more = []
  · subst hmore
    simpa using hdir
  · exact h.above (by rw [hdir]; rfl) hmore

/-- A directory is made under one that is there. -/
theorem ensureDirectory (h : d.Rooted base p root) (hs : d.Sound) (ha : Admits p (names ++ [name]))
    (hdir : d.at? (root ++ names) = some .directory)
    (hat : d.at? (root ++ (names ++ [name])) = none) :
    ∃ d', d.ensureDirectory (p.descend (names ++ [name])) = .ok d' ∧
      d.Changed d' (root ++ (names ++ [name])) (some .directory) := by
  refine ⟨_, ?_, changed_put hs (by simp) (by simp)⟩
  unfold Disk.ensureDirectory makeDirectory
  rw [(h.locate ha hdir).2]
  simp only [List.append_assoc, hat]

/-- A directory is not made under one that is missing. -/
theorem ensureDirectory_noEntry (h : d.Rooted base p root) (ha : Admits p (names ++ [name]))
    (hdir : d.at? (root ++ names) = none) (hat : d.at? (root ++ (names ++ [name])) = none)
    (hf : ∀ front, front <+: names → ∀ file, d.at? (root ++ front) ≠ some (.file file)) :
    d.ensureDirectory (p.descend (names ++ [name])) = .error .noEntry := by
  obtain ⟨e, he, -⟩ := h.stat_missing ha hat
  unfold Disk.ensureDirectory makeDirectory isDirectory
  rw [h.locate_noEntry ha hdir hf, he]
  rfl

/-- Directories are made along names if no file is in the way. -/
theorem makeDirectories (h : d.Rooted base p root) (hs : d.Sound) (ha : Admits p names)
    (hf : ∀ front, front <+: names → ∀ file, d.at? (root ++ front) ≠ some (.file file)) :
    ∃ d', d.makeDirectories (p.descend names).bare = (.ok (), d') ∧ d.Paved d' root names ∧
      d'.Rooted base p root ∧ d'.Sound := by
  induction names using List.reverseRecOn with
  | nil =>
    exact ⟨d, h.leads.makeDirectories, .refl (by simpa using h.directory), h, hs⟩
  | append_singleton names name ih =>
    have hname := ha.isName name (by simp)
    have hbare : (p.descend (names ++ [name])).bare = p.descend (names ++ [name]) := by
      rw [DiskPath.descend_concat, DiskPath.bare_child hname]
    by_cases hdir : d.at? (root ++ (names ++ [name])) = some .directory
    · exact ⟨d, (h.leads_descend hdir).makeDirectories, .refl hdir, h, hs⟩
    · have hat : d.at? (root ++ (names ++ [name])) = none := by
        rcases hat : d.at? (root ++ (names ++ [name])) with _ | ⟨_ | file | target⟩
        · rfl
        · exact absurd hat hdir
        · exact absurd hat (hf _ (List.prefix_refl _) file)
        · exact absurd hat (h.linkless _ target)
      have hfront := fun front (hp : front <+: names) =>
        hf front (hp.trans (List.prefix_append _ _))
      have hancestry : (p.descend (names ++ [name])).bare.ancestry =
          p.descend (names ++ [name]) :: (p.descend names).bare.ancestry := by
        rw [hbare, DiskPath.descend_concat, DiskPath.ancestry_child hname]
      unfold Disk.makeDirectories
      rw [hancestry, makeFirst]
      by_cases habove : d.at? (root ++ names) = some .directory
      · obtain ⟨d', hmake, hc⟩ := h.ensureDirectory hs ha habove hat
        exact ⟨d', by rw [hmake], (Paved.refl habove).concat hc hat, h.with_directory ha hc habove,
          hc.sound⟩
      · have hnone : d.at? (root ++ names) = none := by
          rcases hn : d.at? (root ++ names) with _ | ⟨_ | file | target⟩
          · rfl
          · exact absurd hn habove
          · exact absurd hn (hfront _ (List.prefix_refl _) file)
          · exact absurd hn (h.linkless _ target)
        obtain ⟨d', hmake, hpaved, hrooted, hsound⟩ := ih (ha.of_append h.led.accepted) hfront
        unfold Disk.makeDirectories at hmake
        have hat' : d'.at? (root ++ (names ++ [name])) = none := hpaved.beyond.trans hat
        obtain ⟨d'', hlast, hc⟩ := hrooted.ensureDirectory hsound ha hpaved.last hat'
        refine ⟨d'', ?_, hpaved.concat hc hat, hrooted.with_directory ha hc hpaved.last, hc.sound⟩
        rw [h.ensureDirectory_noEntry ha hnone hat hfront, hmake]
        simp only [hlast]

end Rooted

/-! ## Files -/

theorem splice_length (part whole : Bytes) : splice whole.length part whole = whole ++ part := by
  simp [splice]

namespace Rooted

variable {names others : List FileName} {name other : FileName}

/-- An empty file is made in a directory that is there. -/
theorem createFile (h : d.Rooted base p root) (hs : d.Sound) (ha : Admits p (names ++ [name]))
    (hdir : d.at? (root ++ names) = some .directory)
    (hat : d.at? (root ++ (names ++ [name])) = none) (now : Time) :
    ∃ d', d.createFile (p.descend (names ++ [name])) now = .ok (d.fresh, d') ∧
      d.Changed d' (root ++ (names ++ [name])) (some (.file ⟨d.fresh, [], now, now⟩)) := by
  have hopen : (p.descend (names ++ [name])).closed = false :=
    DiskPath.closed_concat names (ha.isName name (by simp)).1
  let file : DiskFile := ⟨d.fresh, [], now, now⟩
  let made : Disk :=
    { d.put (root ++ (names ++ [name])) (.file file) with fresh := d.fresh + 1 }
  have hat' : ∀ place, made.at? place =
      if root ++ (names ++ [name]) = place then some (.file file) else d.at? place :=
    at?_put (by simp) _
  have hmade : made.Sound := hs.enroll (by simp) rfl
  have hfile : made.at? (root ++ (names ++ [name])) = some (.file file) := by
    rw [hat', if_pos rfl]
  have hc := hmade.changed_mapFile hfile (fun place file' hf hnumber => ?_) (by simp)
    (fun _ => []) now
  · refine ⟨made.mapFile d.fresh (fun _ => []) now, ?_, ⟨?_, hc.current, hc.sound⟩⟩
    · unfold Disk.createFile openFile
      rw [hopen, h.reach_free ha hdir hat]
      simp only [Bool.false_eq_true, if_false, fileAt, hat]
      rfl
    · intro place
      rw [hc.at?, hat']
      split <;> rfl
  · rw [hat'] at hf
    split at hf
    · rename_i hp
      exact hp.symm
    · exact absurd (hnumber ▸ hs.numbered place file' hf) (Nat.lt_irrefl _)

/-- A file is removed. -/
theorem removeFile (h : d.Rooted base p root) (hs : d.Sound) (ha : Admits p (names ++ [name]))
    {file : DiskFile} (hat : d.at? (root ++ (names ++ [name])) = some (.file file)) :
    ∃ d', d.removeFile (p.descend (names ++ [name])) = .ok d' ∧
      d.Changed d' (root ++ (names ++ [name])) none := by
  have hopen : (p.descend (names ++ [name])).closed = false :=
    DiskPath.closed_concat names (ha.isName name (by simp)).1
  have hdir : d.at? (root ++ names) = some .directory := h.nested names name (by rw [hat]; rfl)
  refine ⟨_, ?_, changed_erase hs (by simp)⟩
  unfold Disk.removeFile
  rw [(h.locate ha hdir).2]
  simp only [List.append_assoc, hat, hopen]
  rfl

/-- A file is given another place, where no directory is. -/
theorem renameFile (h : d.Rooted base p root) (hs : d.Sound) (ha : Admits p (names ++ [name]))
    (hb : Admits p (others ++ [other])) {file : DiskFile}
    (hat : d.at? (root ++ (names ++ [name])) = some (.file file))
    (hdir : d.at? (root ++ others) = some .directory)
    (hfree : d.at? (root ++ (others ++ [other])) ≠ some .directory)
    (hne : names ++ [name] ≠ others ++ [other]) :
    ∃ d' d'', d.renameFile (p.descend (names ++ [name])) (p.descend (others ++ [other])) = .ok d'' ∧
      d.Changed d' (root ++ (names ++ [name])) none ∧
      d'.Changed d'' (root ++ (others ++ [other])) (some (.file file)) := by
  have hopen : ∀ {names : List FileName} {name : FileName}, Admits p (names ++ [name]) →
      (p.descend (names ++ [name])).closed = false :=
    fun ha => DiskPath.closed_concat _ (ha.isName _ (by simp)).1
  have habove : d.at? (root ++ names) = some .directory := h.nested names name (by rw [hat]; rfl)
  obtain ⟨hgone, hput⟩ := changed_rename hs (by simp) (root ++ (others ++ [other])) (by simp) hat
  refine ⟨_, _, ?_, hgone, hput⟩
  have hbefore : ¬ (root ++ (others ++ [other])) <+: root ++ names := by
    rintro ⟨more, hm⟩
    rw [List.append_assoc] at hm
    have hnames := List.append_cancel_left hm
    have hsome : (d.at? (root ++ (others ++ [other] ++ (more ++ [name])))).isSome := by
      rw [← List.append_assoc (others ++ [other]), hnames, hat]
      rfl
    exact hfree (h.above hsome (by simp))
  unfold Disk.renameFile
  rw [(h.locate ha habove).1, (h.locate hb hdir).1]
  simp only [List.append_assoc, hat, hb.short other (by simp), hopen ha, hopen hb]
  rw [if_neg (by simp), if_neg (by simp)]
  rw [if_neg (by simpa using hbefore)]
  rw [if_neg (by simpa using hne)]

end Rooted

/-! ## Empty directories -/

namespace Rooted

variable {names : List FileName} {name : FileName}

/-- A directory below which nothing stands is removed. -/
theorem removeDirectory (h : d.Rooted base p root) (hs : d.Sound) (ha : Admits p (names ++ [name]))
    (hat : d.at? (root ++ (names ++ [name])) = some .directory)
    (hempty : ∀ way, way ≠ [] → d.at? (root ++ (names ++ [name] ++ way)) = none) :
    ∃ d', d.removeDirectory (p.descend (names ++ [name])) = .ok d' ∧
      d.Changed d' (root ++ (names ++ [name])) none := by
  have hdir : d.at? (root ++ names) = some .directory := h.nested names name (by rw [hat]; rfl)
  refine ⟨_, ?_, changed_erase hs (by simp)⟩
  unfold Disk.removeDirectory
  rw [(h.locate ha hdir).2]
  have hbelow : (d.below (root ++ (names ++ [name]))).isEmpty := by
    rw [hs.below_isEmpty]
    intro way hway
    rw [List.append_assoc]
    exact hempty way hway
  simp only [List.append_assoc, hat, hbelow]
  rfl

/-- A directory below which something stands is not removed. -/
theorem removeDirectory_notEmpty (h : d.Rooted base p root) (hs : d.Sound)
    (ha : Admits p (names ++ [name]))
    (hat : d.at? (root ++ (names ++ [name])) = some .directory) {way : Place} (hway : way ≠ [])
    (hsome : (d.at? (root ++ (names ++ [name] ++ way))).isSome) :
    d.removeDirectory (p.descend (names ++ [name])) = .error .notEmpty := by
  have hdir : d.at? (root ++ names) = some .directory := h.nested names name (by rw [hat]; rfl)
  have hbelow : ¬ (d.below (root ++ (names ++ [name]))).isEmpty := by
    rw [hs.below_isEmpty]
    intro hnone
    have := hnone way hway
    rw [List.append_assoc] at this
    rw [this] at hsome
    cases hsome
  unfold Disk.removeDirectory
  rw [(h.locate ha hdir).2]
  simp only [List.append_assoc, hat]
  rw [if_neg hbelow]

end Rooted

end Disk

end BlobStore
