import BlobStore.Directory
import BlobStore.Proofs.Disk.Change
import BlobStore.Proofs.Memory

/-!
# What a directory stores

The contents of a storage in a directory are the files below its root, but for those of drafts. No
directory there is without a file, except along the way to a file that is just made or removed: then
the removal of empty directories restores that.

## Main definitions

* `Directory.Visible`: ways from the root to where values can be
* `Directory.Stores`: the files below a root hold some contents

## Main results

* `Directory.Stores.paved`, `Directory.Stores.put`, `Directory.Stores.erase`: changes of the files
* `Directory.Stores.prune`: no empty directories are left
-/

namespace BlobStore

namespace Directory

variable {d d' base : Disk} {root : Place} {c : Contents} {spare : List FileName → Prop}

/-- A way from the root to where a value can be: not the root, and not in the directory for
drafts. -/
def Visible (way : List FileName) : Prop := way ≠ [] ∧ way.head? ≠ some draftsName

theorem Visible.append {way : List FileName} (h : Visible way) (more : List FileName) :
    Visible (way ++ more) := by
  obtain ⟨name, rest, rfl⟩ := List.exists_cons_of_ne_nil h.1
  exact ⟨by simp, h.2⟩

theorem Visible.of_append {way more : List FileName} (h : Visible (way ++ more)) (hne : way ≠ []) :
    Visible way := by
  obtain ⟨name, rest, rfl⟩ := List.exists_cons_of_ne_nil hne
  exact ⟨hne, h.2⟩

theorem Visible.ne {way other : List FileName} (h : Visible way) (ho : ¬ Visible other) :
    way ≠ other := fun he => ho (he ▸ h)

/-- What contents hold at a way: the value of the key with these names, if the names are texts. -/
def valueAt (c : Contents) (way : List FileName) : Option Bytes :=
  if (Key.ofNames way).names = way then c (.ofNames way) else none

@[simp] theorem valueAt_names (c : Contents) (key : Key) : valueAt c key.names = c key := by
  simp [valueAt]

theorem isSome_valueAt {way : List FileName} (h : (valueAt c way).isSome) :
    ∃ key : Key, key.names = way ∧ (c key).isSome := by
  unfold valueAt at h
  split at h
  · rename_i hway
    exact ⟨_, hway, h⟩
  · cases h

theorem valueAt_update (c : Contents) (key : Key) (value : Option Bytes)
    (way : List FileName) :
    valueAt (Function.update c key value) way =
      if way = key.names then value else valueAt c way := by
  unfold valueAt
  rw [Function.update_apply]
  by_cases hway : way = key.names
  · subst hway
    simp
  · split_ifs with htext hkey
    · exact absurd (hkey ▸ htext.symm) hway
    · rfl
    · rfl

/-- The files below a root hold some contents, and every directory there is on the way to one of
them, but for some that are `spare`. -/
structure Stores (d : Disk) (root : Place) (c : Contents) (spare : List FileName → Prop) :
    Prop where
  file : ∀ way, Visible way → ∀ bytes,
    valueAt c way = some bytes ↔
      ∃ file, d.at? (root ++ way) = some (.file file) ∧ file.bytes = bytes
  visible : ∀ key, (c key).isSome → Visible key.names
  held : ∀ way, Visible way → d.at? (root ++ way) = some .directory →
    spare way ∨ ∃ rest, rest ≠ [] ∧ (valueAt c (way ++ rest)).isSome

namespace Stores

theorem mono (h : Stores d root c spare) {spare' : List FileName → Prop}
    (hs : ∀ way, Visible way → spare way →
      spare' way ∨ ∃ rest, rest ≠ [] ∧ (valueAt c (way ++ rest)).isSome) :
    Stores d root c spare' where
  file := h.file
  visible := h.visible
  held way hv hdir := by
    rcases h.held way hv hdir with hspare | hrest
    · exact hs way hv hspare
    · exact Or.inr hrest

/-- What stands elsewhere does not matter. -/
theorem congr (h : Stores d root c spare)
    (he : ∀ way, Visible way → d'.at? (root ++ way) = d.at? (root ++ way)) :
    Stores d' root c spare where
  file way hv bytes := by
    rw [he way hv]
    exact h.file way hv bytes
  visible := h.visible
  held way hv hdir := by
    rw [he way hv] at hdir
    exact h.held way hv hdir

/-- A change where no value can be does not matter. -/
theorem hidden {way : List FileName} {stands? : Option DiskEntry} (h : Stores d root c spare)
    (hc : d.Changed d' (root ++ way) stands?) (hway : ¬ Visible way) : Stores d' root c spare :=
  h.congr fun _ hv => hc.elsewhere (hv.ne hway)

/-- No file, no value. -/
theorem eq_none (h : Stores d root c spare) {way : List FileName}
    (hf : ∀ file, d.at? (root ++ way) ≠ some (.file file)) : valueAt c way = none := by
  by_contra hsome
  obtain ⟨bytes, hb⟩ := Option.ne_none_iff_exists'.mp hsome
  obtain ⟨key, rfl, hkey⟩ := isSome_valueAt (by rw [hb]; rfl : (valueAt c way).isSome)
  obtain ⟨file, hat, -⟩ := (h.file _ (h.visible key hkey) bytes).mp hb
  exact hf file hat

/-- Directories made along some names may be without files. -/
theorem paved {names : List FileName} (h : Stores d root c spare) (hp : d.Paved d' root names) :
    Stores d' root c fun way => spare way ∨ way <+: names where
  file way hv bytes := by
    rw [h.file way hv bytes]
    rcases hp.at? (root ++ way) with he | ⟨hnone, hdir, -⟩
    · rw [he]
    · rw [hnone, hdir]
      simp
  visible := h.visible
  held way hv hdir := by
    rcases hp.at? (root ++ way) with he | ⟨-, -, front, -, hfront, hplace⟩
    · rw [he] at hdir
      rcases h.held way hv hdir with hspare | hrest
      · exact Or.inl (Or.inl hspare)
      · exact Or.inr hrest
    · obtain rfl := List.append_cancel_left hplace
      exact Or.inl (Or.inr hfront)

/-- A file put where no directory is holds the value of its key. -/
theorem put {key : Key} {file : DiskFile} (h : Stores d root c spare)
    (hc : d.Changed d' (root ++ key.names) (some (.file file))) (hv : Visible key.names) :
    Stores d' root (Function.update c key (some file.bytes)) spare where
  file way hway bytes := by
    rw [valueAt_update]
    by_cases hk : way = key.names
    · subst hk
      simp [hc.here]
    · rw [if_neg hk, hc.elsewhere hk]
      exact h.file way hway bytes
  visible other ho := by
    rw [Function.update_apply] at ho
    split at ho
    · rename_i he
      exact he ▸ hv
    · exact h.visible other ho
  held way hway hdir := by
    rw [hc.at?] at hdir
    split at hdir
    · cases hdir
    · rcases h.held way hway hdir with hspare | ⟨rest, hrest, hsome⟩
      · exact Or.inl hspare
      · refine Or.inr ⟨rest, hrest, ?_⟩
        rw [valueAt_update]
        split
        · rfl
        · exact hsome

/-- Directories that were made on the way to a new file are not without files. -/
theorem put_paved {key : Key} {file : DiskFile}
    (h : Stores d root c fun way => spare way ∨ way <+: key.names.dropLast)
    (hc : d.Changed d' (root ++ key.names) (some (.file file))) (hv : Visible key.names) :
    Stores d' root (Function.update c key (some file.bytes)) spare := by
  apply (h.put hc hv).mono
  intro way hway hspare
  rcases hspare with hspare | ⟨more, hmore⟩
  · exact Or.inl hspare
  · refine Or.inr ⟨more ++ [key.names.getLast hv.1], by simp, ?_⟩
    rw [← List.append_assoc, hmore, List.dropLast_append_getLast hv.1, valueAt_names,
      Function.update_self]
    rfl

/-- Once a file is removed, the directories on the way to it may be without files. -/
theorem erase {key : Key} (h : Stores d root c spare)
    (hc : d.Changed d' (root ++ key.names) none) :
    Stores d' root (Function.update c key none)
      fun way => spare way ∨ (way <+: key.names ∧ way ≠ key.names) where
  file way hway bytes := by
    rw [valueAt_update]
    by_cases hk : way = key.names
    · subst hk
      simp [hc.here]
    · rw [if_neg hk, hc.elsewhere hk]
      exact h.file way hway bytes
  visible other ho := by
    rw [Function.update_apply] at ho
    split at ho
    · cases ho
    · exact h.visible other ho
  held way hway hdir := by
    rw [hc.at?] at hdir
    split at hdir
    · cases hdir
    · rcases h.held way hway hdir with hspare | ⟨rest, hrest, hsome⟩
      · exact Or.inl (Or.inl hspare)
      · by_cases hk : way ++ rest = key.names
        · refine Or.inl (Or.inr ?_)
          rw [← hk]
          exact ⟨List.prefix_append _ _, by simpa using Ne.symm hrest⟩
        · refine Or.inr ⟨rest, hrest, ?_⟩
          rw [valueAt_update, if_neg hk]
          exact hsome

/-- A file renamed into a place for which directories were made holds the value of the key there. -/
theorem renamed {source destination : Key} {file : DiskFile} {d₁ d₂ d₃ : Disk}
    (h : Stores d root c fun _ => False) (hp : d.Paved d₁ root destination.names.dropLast)
    (hc₂ : d₁.Changed d₂ (root ++ source.names) none)
    (hc₃ : d₂.Changed d₃ (root ++ destination.names) (some (.file file)))
    (hv : Visible destination.names) :
    Stores d₃ root (Function.update (Function.update c source none) destination (some file.bytes))
      fun way => way <+: source.names ∧ way ≠ source.names := by
  refine (((h.paved hp).erase hc₂).mono fun way _ hspare => Or.inl ?_).put_paved hc₃ hv
  rcases hspare with (hspare | hp) | hspare
  · exact hspare.elim
  · exact Or.inr hp
  · exact Or.inl hspare

/-- A directory that is removed has no value. -/
theorem removed {names : List FileName} (h : Stores d root c spare)
    (hc : d.Changed d' (root ++ names) none) (hdir : d.at? (root ++ names) = some .directory) :
    Stores d' root c fun way => spare way ∧ way ≠ names where
  file way hway bytes := by
    rw [hc.at?]
    split
    · rename_i he
      obtain rfl := List.append_cancel_left he
      have hnone : valueAt c names = none := h.eq_none (by simp [hdir])
      simp [hnone]
    · exact h.file way hway bytes
  visible := h.visible
  held way hway hat := by
    rw [hc.at?] at hat
    split at hat
    · cases hat
    · rename_i hne
      rcases h.held way hway hat with hspare | hrest
      · exact Or.inl ⟨hspare, fun he => hne (he ▸ rfl)⟩
      · exact Or.inr hrest

/-- Below a directory on the way to no file, unless other directories there may be without files,
there is nothing. -/
theorem empty_below {names : List FileName} (h : Stores d root c spare) {p : DiskPath}
    (hr : d.Rooted base p root) (hv : Visible names)
    (hspare : ∀ way, way ≠ [] → ¬ spare (names ++ way))
    (hc : ∀ rest, rest ≠ [] → valueAt c (names ++ rest) = none) {way : List FileName}
    (hway : way ≠ []) :
    d.at? (root ++ (names ++ way)) = none := by
  rcases hat : d.at? (root ++ (names ++ way)) with _ | ⟨_ | file | target⟩
  · rfl
  · rcases h.held _ (hv.append way) hat with hs | ⟨rest, -, hsome⟩
    · exact absurd hs (hspare way hway)
    · rw [List.append_assoc, hc (way ++ rest) (by simp [hway])] at hsome
      cases hsome
  · have hvalue := (h.file _ (hv.append way) file.bytes).mpr ⟨file, hat, rfl⟩
    rw [hc way hway] at hvalue
    cases hvalue
  · exact absurd hat (hr.linkless _ target)

end Stores

/-! ## Empty directories -/

/-- What is above the path of the root is not inside. -/
theorem isInside_of_length_le (dir : Directory) {p : DiskPath}
    (h : p.components.length ≤ dir.rootPath.components.length) : dir.isInside p = false := by
  by_contra hin
  rw [Bool.not_eq_false, isInside, Bool.and_eq_true, bne_iff_ne, List.isPrefixOf_iff_prefix] at hin
  exact hin.1 (hin.2.eq_of_length_le h).symm

theorem isInside_descend (dir : Directory) {names : List FileName} (hne : names ≠ [])
    (hn : ∀ name ∈ names, DiskPath.IsName name) : dir.isInside (dir.rootPath.descend names) := by
  rw [isInside, DiskPath.components_descend hn, Bool.and_eq_true, bne_iff_ne,
    List.isPrefixOf_iff_prefix]
  exact ⟨by simp [hne], List.prefix_append _ _⟩

theorem parents_root (dir : Directory) : dir.parents dir.rootPath = [] := by
  unfold parents
  cases dir.rootPath.components.length with
  | zero => rfl
  | succ n =>
    have hout := dir.isInside_of_length_le dir.rootPath.length_components_parent_le
    rw [DiskPath.ascend, List.takeWhile_cons_of_neg (by simp [hout])]

theorem parents_single (dir : Directory) {name : FileName} (hn : DiskPath.IsName name) :
    dir.parents (dir.rootPath.descend [name]) = [] := by
  have hout := dir.isInside_of_length_le dir.rootPath.length_components_bare_le
  have hparent : (dir.rootPath.descend [name]).parent = dir.rootPath.bare :=
    DiskPath.parent_child hn
  have hlength : (dir.rootPath.descend [name]).components.length =
      dir.rootPath.components.length + 1 := by
    rw [DiskPath.components_descend (by simpa using hn)]
    simp
  unfold parents
  rw [hlength, hparent, DiskPath.ascend, List.takeWhile_cons_of_neg (by simp [hout])]

/-- The directories on the way to a file are the one that it stands in, and those on the way to
that. -/
theorem parents_concat (dir : Directory) {names : List FileName} (hne : names ≠ [])
    {last : FileName}
    (hn : ∀ name ∈ names ++ [last], DiskPath.IsName name) :
    dir.parents (dir.rootPath.descend (names ++ [last])) =
      dir.rootPath.descend names :: dir.parents (dir.rootPath.descend names) := by
  have hnames : ∀ name ∈ names, DiskPath.IsName name :=
    fun name hm => hn name (List.mem_append_left _ hm)
  have hparent : (dir.rootPath.descend (names ++ [last])).parent = dir.rootPath.descend names := by
    obtain ⟨front, name, rfl⟩ := List.eq_nil_or_concat' names |>.resolve_left hne
    rw [DiskPath.parent_descend (hn last (by simp)), DiskPath.descend_concat,
      DiskPath.bare_child (hnames name (by simp))]
  have hlength : (dir.rootPath.descend (names ++ [last])).components.length =
      (dir.rootPath.descend names).components.length + 1 := by
    rw [DiskPath.components_descend hn, DiskPath.components_descend hnames]
    simp
    rfl
  unfold parents
  rw [hlength, hparent, DiskPath.ascend,
    List.takeWhile_cons_of_pos (dir.isInside_descend hne hnames)]

theorem prefix_of_concat {way front : List FileName} {last : FileName}
    (h : way <+: front ++ [last] ∧ way ≠ front ++ [last]) : way <+: front :=
  (List.prefix_concat_iff.mp h.1).resolve_left h.2

namespace Stores

variable {front : List FileName} {last : FileName}

/-- A value below the nearest directory is below all directories on the way there. -/
theorem full (h : Stores d root c fun way => way <+: front ++ [last] ∧ way ≠ front ++ [last])
    {rest : List FileName} (hrest : rest ≠ []) (hsome : (valueAt c (front ++ rest)).isSome) :
    Stores d root c fun _ => False := by
  apply h.mono
  intro way _ hspare
  apply Or.inr
  obtain ⟨more, hmore⟩ := prefix_of_concat hspare
  refine ⟨more ++ rest, by simp [hrest], ?_⟩
  rw [← List.append_assoc, hmore]
  exact hsome

/-- Nothing stands below the nearest directory without a value below it: a directory there would be
on the way to one. -/
theorem bare (h : Stores d root c fun way => way <+: front ++ [last] ∧ way ≠ front ++ [last])
    {p : DiskPath} (hr : d.Rooted base p root) (hv : Visible front)
    (hc : ∀ rest, rest ≠ [] → valueAt c (front ++ rest) = none) {way : List FileName}
    (hway : way ≠ []) :
    d.at? (root ++ (front ++ way)) = none := by
  refine h.empty_below hr hv ?_ hc hway
  intro way hway hspare
  have hlen := (prefix_of_concat hspare).length_le
  have hpos := List.length_pos_iff.mpr hway
  rw [List.length_append] at hlen
  omega

variable {dir : Directory}

/-- Of the directories on the way to where a file was, those are removed that are left empty. -/
theorem prune {names : List FileName}
    (h : Stores d root c fun way => way <+: names ∧ way ≠ names)
    (hr : d.Rooted base dir.rootPath root) (hs : d.Sound) (ha : Disk.Admits dir.rootPath names)
    (hv : Visible names) (hdir : d.at? (root ++ names.dropLast) = some .directory) :
    Stores (d.removeDirectories (dir.parents (dir.rootPath.descend names))) root c
        (fun _ => False) ∧
      (d.removeDirectories (dir.parents (dir.rootPath.descend names))).Rooted base
        dir.rootPath root ∧
      (d.removeDirectories (dir.parents (dir.rootPath.descend names))).Sound ∧
      ∀ way, ¬ Visible way →
        (d.removeDirectories (dir.parents (dir.rootPath.descend names))).at? (root ++ way) =
          d.at? (root ++ way) := by
  -- from the nearest directory up; the disk is a smaller one at each step
  induction names using List.reverseRecOn generalizing d with
  | nil => exact absurd rfl hv.1
  | append_singleton front last ih =>
    rw [List.dropLast_concat] at hdir
    by_cases hfront : front = []
    · subst hfront
      rw [List.nil_append, parents_single dir (ha.isName last (by simp))]
      refine ⟨h.mono ?_, hr, hs, fun _ _ => rfl⟩
      intro way hway hspare
      exact absurd (List.prefix_nil.mp (prefix_of_concat hspare)) hway.1
    · obtain ⟨up, name, rfl⟩ := List.eq_nil_or_concat' front |>.resolve_left hfront
      have hvfront := hv.of_append hfront
      have hafront := ha.of_append hr.led.accepted
      rw [parents_concat dir hfront ha.isName, Disk.removeDirectories]
      by_cases hfull : ∃ rest, rest ≠ [] ∧ (valueAt c (up ++ [name] ++ rest)).isSome
      · obtain ⟨rest, hrest, hsome⟩ := hfull
        obtain ⟨bytes, hbytes⟩ := Option.isSome_iff_exists.mp hsome
        obtain ⟨file, hat, -⟩ := (h.file _ (hvfront.append rest) bytes).mp hbytes
        rw [hr.removeDirectory_notEmpty hs hafront hdir hrest (by rw [hat]; rfl)]
        exact ⟨h.full hrest hsome, hr, hs, fun _ _ => rfl⟩
      · have hnone : ∀ rest, rest ≠ [] → valueAt c (up ++ [name] ++ rest) = none := by
          intro rest hrest
          by_contra hsome
          exact hfull ⟨rest, hrest, Option.isSome_iff_ne_none.mpr hsome⟩
        have hempty : ∀ way, way ≠ [] → d.at? (root ++ (up ++ [name] ++ way)) = none :=
          fun way hway => h.bare hr hvfront hnone hway
        obtain ⟨d₁, hremove, hc⟩ := hr.removeDirectory hs hafront hdir hempty
        have hup : d.at? (root ++ up) = some .directory := hr.nested up name (by rw [hdir]; rfl)
        have hstores : Stores d₁ root c fun way => way <+: up ++ [name] ∧ way ≠ up ++ [name] := by
          apply (h.removed hc hdir).mono
          rintro way _ ⟨hspare, hother⟩
          exact Or.inl ⟨prefix_of_concat hspare, hother⟩
        have hdir₁ : d₁.at? (root ++ (up ++ [name]).dropLast) = some .directory := by
          rw [hc.at?, List.dropLast_concat, if_neg (by simp), hup]
        rw [hremove]
        obtain ⟨hst, hrooted, hsound, hframe⟩ :=
          ih hstores (hr.without hc hempty) hc.sound hafront hvfront hdir₁
        refine ⟨hst, hrooted, hsound, ?_⟩
        intro way hway
        rw [hframe way hway, hc.elsewhere (hvfront.ne hway).symm]

end Stores

end Directory

end BlobStore
