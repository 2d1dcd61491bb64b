import BlobStore.Proofs.Disk.Way

/-!
# Directories made along names

Directories are made along names as far as names and files on the way allow. What was made stays,
also if the last of them cannot be made: that happens at a name that is too long, or with a path
that is, but with names within the limits only where a file is in the way, and then nothing is made.

## Main definitions

* `Disk.Gains`, `Disk.GainsAlong`: a disk with more directories, at the places of some paths
* `Disk.Grown`: a disk with directories made along some names
* `Disk.Made`: what comes of making directories

## Main results

* `Disk.gainsAlong_of_makeDirectories`: where directories are made for a path
* `Disk.Rooted.makeDirectories_made`: directories are made along any names, as far as possible
-/

namespace BlobStore

namespace Disk

variable {d d' base : Disk} {p : DiskPath} {root : Place} {names : List FileName} {name : FileName}

/-! ## One directory after the other -/

/-- A directory is made at once if the directories above it are there. -/
theorem makeDirectories_of_ok (hn : DiskPath.IsName name)
    (he : d.ensureDirectory (p.descend (names ++ [name])) = .ok d') :
    d.makeDirectories (p.descend (names ++ [name])).bare = (.ok (), d') := by
  unfold makeDirectories
  rw [DiskPath.descend_concat] at he ⊢
  rw [DiskPath.bare_child hn, DiskPath.ancestry_child hn, makeFirst, he]

theorem makeDirectories_of_error (hn : DiskPath.IsName name) {e : DiskError}
    (he : d.ensureDirectory (p.descend (names ++ [name])) = .error e) (hne : e ≠ .noEntry) :
    d.makeDirectories (p.descend (names ++ [name])).bare = (.error e, d) := by
  unfold makeDirectories
  rw [DiskPath.descend_concat] at he ⊢
  rw [DiskPath.bare_child hn, DiskPath.ancestry_child hn, makeFirst, he]
  cases e <;> first | rfl | exact absurd rfl hne

/-- A directory for which another is missing is made after the directories above it. -/
theorem makeDirectories_of_noEntry (hn : DiskPath.IsName name)
    (he : d.ensureDirectory (p.descend (names ++ [name])) = .error .noEntry) :
    d.makeDirectories (p.descend (names ++ [name])).bare =
      match d.makeDirectories (p.descend names).bare with
      | (.error e, d) => (.error e, d)
      | (.ok (), d) =>
        match d.ensureDirectory (p.descend (names ++ [name])) with
        | .ok d => (.ok (), d)
        | .error e => (.error e, d) := by
  unfold makeDirectories
  rw [DiskPath.descend_concat] at he ⊢
  rewrite [DiskPath.bare_child hn, DiskPath.ancestry_child hn, makeFirst, he]
  rfl

/-! ## More directories -/

/-- A disk with more directories. -/
structure Gains (d d' : Disk) : Prop where
  at? : ∀ place, d'.at? place = d.at? place ∨
    (d.at? place = none ∧ d'.at? place = some .directory)
  current : d'.current = d.current

theorem Gains.refl (d : Disk) : d.Gains d := ⟨fun _ => Or.inl rfl, rfl⟩

theorem Gains.trans {d'' : Disk} (h : d.Gains d') (h' : d'.Gains d'') : d.Gains d'' where
  at? place := by
    rcases h'.at? place with he | ⟨hnone, hdir⟩
    · rw [he]
      exact h.at? place
    · rcases h.at? place with he | ⟨-, hdir'⟩
      · rw [he] at hnone
        exact Or.inr ⟨hnone, hdir⟩
      · rw [hdir'] at hnone
        cases hnone
  current := h'.current.trans h.current

/-- A directory is there, or made at the place of the path. -/
theorem eq_or_put_of_ensureDirectory (h : d.ensureDirectory p = .ok d') :
    d' = d ∨ ∃ x, d.place? p = some x ∧ x ≠ [] ∧ d.at? x = none ∧ d' = d.put x .directory := by
  unfold Disk.ensureDirectory makeDirectory at h
  split at h
  · rename_i made hmake
    cases h
    split at hmake
    · cases hmake
    · cases hmake
    · rename_i here last hl
      split at hmake
      · cases hmake
      · rename_i hnone
        exact Or.inr ⟨here ++ [last], place?_of_locate hl, by simp, hnone,
          (Except.ok.inj hmake).symm⟩
  · split at h
    · exact Or.inl (Except.ok.inj h).symm
    · cases h

theorem gains_put {x : Place} (hx : x ≠ []) (hnone : d.at? x = none) :
    d.Gains (d.put x .directory) where
  at? place := by
    rw [at?_put hx]
    split
    · rename_i he
      exact Or.inr ⟨he ▸ hnone, rfl⟩
    · exact Or.inl rfl
  current := rfl

theorem Gains.includes (h : d.Gains d') : d'.Includes d := by
  intro x entry hx
  rcases h.at? x with he | ⟨hnone, -⟩
  · rw [he, hx]
  · rw [hnone] at hx
    cases hx

/-- A disk with more directories, at the places of some paths. -/
structure GainsAlong (d d' : Disk) (paths : List DiskPath) : Prop extends d.Gains d' where
  along : ∀ x, d'.at? x ≠ d.at? x → ∃ p ∈ paths, d'.place? p = some x

theorem GainsAlong.refl (d : Disk) (paths : List DiskPath) : d.GainsAlong d paths where
  toGains := .refl d
  along _ hx := absurd rfl hx

theorem gainsAlong_of_ensureDirectory (h : d.ensureDirectory p = .ok d') {paths : List DiskPath}
    (hp : p ∈ paths) : d.GainsAlong d' paths := by
  rcases eq_or_put_of_ensureDirectory h with rfl | ⟨x, hplace, hx, hnone, rfl⟩
  · exact .refl _ paths
  · have hgains := gains_put hx hnone
    refine ⟨hgains, fun y hy => ?_⟩
    rw [at?_put hx] at hy
    split at hy
    · rename_i he
      exact ⟨p, hp, hgains.includes.place? rfl (he ▸ hplace)⟩
    · exact absurd rfl hy

theorem GainsAlong.trans {d'' : Disk} {paths : List DiskPath} (h : d.GainsAlong d' paths)
    (h' : d'.GainsAlong d'' paths) : d.GainsAlong d'' paths where
  toGains := h.toGains.trans h'.toGains
  along x hx := by
    by_cases he : d''.at? x = d'.at? x
    · rw [he] at hx
      obtain ⟨p, hp, hplace⟩ := h.along x hx
      exact ⟨p, hp, h'.includes.place? h'.current hplace⟩
    · exact h'.along x he

theorem GainsAlong.mono {paths more : List DiskPath} (h : d.GainsAlong d' paths)
    (hm : paths ⊆ more) : d.GainsAlong d' more where
  toGains := h.toGains
  along x hx := by
    obtain ⟨p, hp, hplace⟩ := h.along x hx
    exact ⟨p, hm hp, hplace⟩

theorem gainsAlong_of_makeFirst (d : Disk) (paths : List DiskPath) :
    d.GainsAlong (d.makeFirst paths).2 paths := by
  induction paths generalizing d with
  | nil => exact .refl d []
  | cons p above ih =>
    rw [makeFirst]
    split
    · exact gainsAlong_of_ensureDirectory ‹_› List.mem_cons_self
    · have habove := (ih d).mono (List.subset_cons_self p above)
      generalize d.makeFirst above = outcome at habove ⊢
      obtain ⟨result, d₁⟩ := outcome
      cases result with
      | error e => exact habove
      | ok =>
        simp only
        split
        · exact habove.trans (gainsAlong_of_ensureDirectory ‹_› List.mem_cons_self)
        · exact habove
    · exact .refl d _

/-- Directories are made at the places of a path and of those above it. -/
theorem gainsAlong_of_makeDirectories (d : Disk) (p : DiskPath) :
    d.GainsAlong (d.makeDirectories p).2 p.ancestry := gainsAlong_of_makeFirst d p.ancestry

/-- Wherever directories are made, nothing else changes. -/
theorem gains_of_makeDirectories (p : DiskPath) : d.Gains (d.makeDirectories p).2 :=
  (gainsAlong_of_makeDirectories d p).toGains

/-- If no directory was made, walks lead where they led. -/
theorem Gains.walk (h : d.Gains d') (hs : ∀ place, d'.at? place = d.at? place) {there : Place}
    (hw : d'.walk p = .ok there) : d.walk p = .ok there := by
  have hi : d.Includes d' := fun place entry he => hs place ▸ he
  have hstart : d.start p = d'.start p := by rw [start, start, h.current]
  unfold Disk.walk Disk.reach at hw ⊢
  cases hr : refuse p with
  | some e => simp [hr] at hw
  | none =>
    rw [hr] at hw
    rw [hstart]
    exact hi.strides hw

/-! ## Directories along names -/

/-- A disk with directories made along some names, not all of them perhaps. -/
def Grown (d d' : Disk) (p : DiskPath) (root : Place) (names : List FileName) : Prop :=
  ∀ place, d'.at? place = d.at? place ∨
    (d.at? place = none ∧ d'.at? place = some .directory ∧
      ∃ front, front ≠ [] ∧ front <+: names ∧ Admits p front ∧ place = root ++ front)

theorem Grown.refl (d : Disk) (p : DiskPath) (root : Place) (names : List FileName) :
    d.Grown d p root names := fun _ => Or.inl rfl

/-- Beyond the names nothing is made. -/
theorem Grown.beyond (h : d.Grown d' p root names) :
    d'.at? (root ++ (names ++ [name])) = d.at? (root ++ (names ++ [name])) := by
  rcases h (root ++ (names ++ [name])) with he | ⟨-, -, front, -, hp, -, hplace⟩
  · exact he
  · obtain rfl := List.append_cancel_left hplace
    have hlen := hp.length_le
    simp at hlen

theorem Grown.concat (h : d.Grown d' p root names) : d.Grown d' p root (names ++ [name]) := by
  intro place
  rcases h place with he | ⟨hnone, hdir, front, hne, hp, ha, hplace⟩
  · exact Or.inl he
  · exact Or.inr ⟨hnone, hdir, front, hne, hp.trans (List.prefix_append _ _), ha, hplace⟩

/-- One directory more. -/
theorem Grown.put {d'' : Disk} (h : d.Grown d' p root names) (ha : Admits p (names ++ [name]))
    (hc : d'.Changed d'' (root ++ (names ++ [name])) (some .directory))
    (hat : d'.at? (root ++ (names ++ [name])) = none) :
    d.Grown d'' p root (names ++ [name]) := by
  intro place
  rw [hc.at?]
  split
  · rename_i he
    subst he
    rw [h.beyond] at hat
    exact Or.inr ⟨hat, rfl, names ++ [name], by simp, List.prefix_refl _, ha, rfl⟩
  · exact h.concat place

/-- What comes of making directories along some names: they are made up to the last, or, if names
are over the limits or a file is in the way, up to some of them. -/
structure Made (d base : Disk) (p : DiskPath) (root : Place) (names : List FileName)
    (outcome : Except DiskError Unit × Disk) : Prop where
  rooted : outcome.2.Rooted base p root
  sound : outcome.2.Sound
  grown : d.Grown outcome.2 p root names
  last : outcome.1 = .ok () → outcome.2.at? (root ++ names) = some .directory
  /-- Names within the limits fail before anything is made. -/
  same : ∀ e, outcome.1 = .error e → Admits p names → outcome.2 = d

namespace Rooted

/-- A directory is made in a tree, or is there, or cannot be made. -/
theorem ensureDirectory_cases (h : d.Rooted base p root) (hs : d.Sound)
    (hn : ∀ other ∈ names ++ [name], DiskPath.IsName other) :
    (∃ e, d.ensureDirectory (p.descend (names ++ [name])) = .error e) ∨
      (d.ensureDirectory (p.descend (names ++ [name])) = .ok d ∧
        d.at? (root ++ (names ++ [name])) = some .directory) ∨
      ∃ d', d.ensureDirectory (p.descend (names ++ [name])) = .ok d' ∧ Admits p (names ++ [name]) ∧
        d.at? (root ++ (names ++ [name])) = none ∧
        d.Changed d' (root ++ (names ++ [name])) (some .directory) ∧ d'.Rooted base p root := by
  rw [h.ensureDirectory_eq hn]
  cases hl : d.lookUp p root names name with
  | error e => exact Or.inl ⟨e, rfl⟩
  | ok found =>
    obtain ⟨hat, -⟩ := lookUp_eq_ok hl
    rcases found with _ | ⟨_ | file | target⟩
    · have hc : d.Changed (d.put (root ++ (names ++ [name])) .directory)
          (root ++ (names ++ [name])) (some .directory) := changed_put hs (by simp) (by simp)
      exact Or.inr (Or.inr ⟨_, rfl, lookUp_admits hn hl, hat.symm, hc,
        h.with_directory (lookUp_admits hn hl) hc (h.directory_of_lookUp hl)⟩)
    · exact Or.inr (Or.inl ⟨rfl, hat.symm⟩)
    · exact Or.inl ⟨_, rfl⟩
    · exact Or.inl ⟨_, rfl⟩

/-- An empty directory is removed from a tree, or nothing is. -/
theorem removeDirectory_cases (h : d.Rooted base p root) (hs : d.Sound)
    (hn : ∀ other ∈ names ++ [name], DiskPath.IsName other) :
    (∃ e, d.removeDirectory (p.descend (names ++ [name])) = .error e) ∨
      ∃ d', d.removeDirectory (p.descend (names ++ [name])) = .ok d' ∧
        d.Changed d' (root ++ (names ++ [name])) none ∧ d'.Rooted base p root := by
  rw [h.removeDirectory_eq hn]
  cases hl : d.lookUp p root names name with
  | error e => exact Or.inl ⟨e, rfl⟩
  | ok found =>
    rcases found with _ | ⟨_ | file | target⟩
    · exact Or.inl ⟨_, rfl⟩
    · by_cases hempty : (d.below (root ++ (names ++ [name]))).isEmpty
      · have hc : d.Changed (d.erase (root ++ (names ++ [name])))
            (root ++ (names ++ [name])) none := changed_erase hs (by simp)
        refine Or.inr ⟨_, if_pos hempty, hc, h.without hc fun way hway => ?_⟩
        rw [← List.append_assoc root]
        exact hs.below_isEmpty.mp hempty way hway
      · exact Or.inl ⟨_, if_neg hempty⟩
    · exact Or.inl ⟨_, rfl⟩
    · exact Or.inl ⟨_, rfl⟩

theorem missing_of_noEntry (h : d.Rooted base p root) (ha : Admits p (names ++ [name]))
    (he : d.ensureDirectory (p.descend (names ++ [name])) = .error .noEntry) :
    d.at? (root ++ (names ++ [name])) = none := by
  by_contra hsome
  have hdir := h.nested names name (Option.isSome_iff_ne_none.mpr hsome)
  rw [h.ensureDirectory_eq ha.isName, h.lookUp_free ha hdir] at he
  rcases hat : d.at? (root ++ (names ++ [name])) with _ | ⟨_ | file | target⟩ <;> simp_all

/-- Directories are made along any names, as far as that is possible. -/
theorem makeDirectories_made (h : d.Rooted base p root) (hs : d.Sound)
    (hn : ∀ name ∈ names, DiskPath.IsName name) :
    Made d base p root names (d.makeDirectories (p.descend names).bare) := by
  induction names using List.reverseRecOn with
  | nil =>
    rw [DiskPath.descend_nil, h.leads.makeDirectories]
    exact ⟨h, hs, .refl d p root [], fun _ => by simpa using h.directory, fun _ _ _ => rfl⟩
  | append_singleton names name ih =>
    have hname := hn name (by simp)
    have hmade := ih fun other ho => hn other (List.mem_append_left _ ho)
    rcases h.ensureDirectory_cases hs hn with ⟨e, he⟩ | ⟨he, hdir⟩ | ⟨d', he, ha, hat, hc, hr⟩
    · by_cases hentry : e = .noEntry
      · subst hentry
        rw [makeDirectories_of_noEntry hname he]
        generalize d.makeDirectories (p.descend names).bare = outcome at hmade ⊢
        obtain ⟨result, d₁⟩ := outcome
        obtain ⟨hr₁, hs₁, hgrown, hlast, hsame⟩ := hmade
        dsimp only at hr₁ hs₁ hgrown hlast hsame
        cases result with
        | error e =>
          exact ⟨hr₁, hs₁, hgrown.concat, by simp, fun e he ha =>
            hsame e he (ha.of_append h.led.accepted)⟩
        | ok =>
          rcases hr₁.ensureDirectory_cases hs₁ hn with
            ⟨e, he₁⟩ | ⟨he₁, hdir⟩ | ⟨d₂, he₁, ha, hat, hc, hr₂⟩
          · simp only [he₁]
            refine ⟨hr₁, hs₁, hgrown.concat, by simp, ?_⟩
            rintro e' - ha
            rw [hr₁.ensureDirectory_eq hn, hr₁.lookUp_free ha (hlast rfl), hgrown.beyond,
              h.missing_of_noEntry ha he] at he₁
            cases he₁
          · simp only [he₁]
            exact ⟨hr₁, hs₁, hgrown.concat, fun _ => hdir, by simp⟩
          · simp only [he₁]
            exact ⟨hr₂, hc.sound, hgrown.put ha hc hat, fun _ => hc.here, by simp⟩
      · rw [makeDirectories_of_error hname he hentry]
        exact ⟨h, hs, .refl _ _ _ _, by simp, fun _ _ _ => rfl⟩
    · rw [makeDirectories_of_ok hname he]
      exact ⟨h, hs, .refl _ _ _ _, fun _ => hdir, by simp⟩
    · rw [makeDirectories_of_ok hname he]
      exact ⟨hr, hc.sound, (Grown.refl d p root names).put ha hc hat, fun _ => hc.here, by simp⟩

end Rooted

end Disk

end BlobStore
