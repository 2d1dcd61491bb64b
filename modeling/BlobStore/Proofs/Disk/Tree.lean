import BlobStore.Proofs.Disk.Walk

/-!
# Trees of directories

Below a directory that a path leads to there may be no links, and everything there stands in a
directory. Then a path that goes on with names is walked name by name, and what it finds is what
stands at the place with these names.

## Main definitions

* `Disk.Rooted`: a path leads to a directory with such a tree below it
* `Disk.Admits`: names that a path can go on with

## Main results

* `Disk.Rooted.stat`, `Disk.Rooted.stat_missing`: what a path into a tree finds
* `Disk.Rooted.locate`, `Disk.Rooted.locate_noEntry`: where the last name of such a path stands
-/

namespace BlobStore

namespace Disk

/-- Names that a path can go on with. -/
structure Admits (p : DiskPath) (names : List FileName) : Prop where
  isName : ∀ name ∈ names, DiskPath.IsName name
  short : ∀ name ∈ names, isTooLong name = false
  accepted : refuse (p.descend names) = none

instance decidableAdmits (p : DiskPath) (names : List FileName) : Decidable (Admits p names) :=
  decidable_of_iff
    ((∀ name ∈ names, DiskPath.IsName name) ∧ (∀ name ∈ names, isTooLong name = false) ∧
      refuse (p.descend names) = none)
    ⟨fun ⟨hn, hs, ha⟩ => ⟨hn, hs, ha⟩, fun ⟨hn, hs, ha⟩ => ⟨hn, hs, ha⟩⟩

/-- A path leads to a directory, which was empty on some disk. Nothing has changed there but below
the directory, where everything stands in directories that have paths, and is no link. -/
structure Rooted (d base : Disk) (p : DiskPath) (root : Place) : Prop where
  led : base.Leads p root
  empty : ∀ way, way ≠ [] → base.at? (root ++ way) = none
  same : ∀ place, (∀ way, way ≠ [] → place ≠ root ++ way) → d.at? place = base.at? place
  current : d.current = base.current
  linkless : ∀ way target, d.at? (root ++ way) ≠ some (.link target)
  nested : ∀ way name, (d.at? (root ++ (way ++ [name]))).isSome →
    d.at? (root ++ way) = some .directory
  /-- The path can go on to every directory, since they were all made along such paths. -/
  fits : ∀ way, d.at? (root ++ way) = some .directory → Admits p way

variable {d base : Disk} {p : DiskPath} {root here : Place} {names way more : List FileName}
  {name : FileName}

/-- A path that can go on with names can go on with the first of them. -/
theorem Admits.of_append (h : Admits p (names ++ more)) (hp : refuse p = none) :
    Admits p names := by
  refine ⟨fun name hn => h.isName name (List.mem_append_left _ hn),
    fun name hn => h.short name (List.mem_append_left _ hn), ?_⟩
  by_cases hne : names = []
  · subst hne
    exact hp
  · exact refuse_of_descend h.accepted hne fun name hn => (h.isName name hn).1

/-! ## Names on the way -/

theorem turn_name (hn : DiskPath.IsName name) (hs : isTooLong name = false)
    (hl : ∀ target, d.at? (here ++ [name]) ≠ some (.link target)) (m : Nat) :
    d.turn m here name =
      match d.at? (here ++ [name]) with
      | none => .absent (here ++ [name])
      | some .directory => .onward m (here ++ [name]) []
      | some _ => .file (here ++ [name]) := by
  unfold turn
  rw [if_neg hn.2.1, if_neg hn.2.2, hs, if_neg (by simp)]
  rcases hat : d.at? (here ++ [name]) with _ | ⟨_ | _ | target⟩
  · rfl
  · rfl
  · rfl
  · exact absurd hat (hl target)

/-- Names that lead into one directory after the other lead to the last. -/
theorem strides_directories (hn : ∀ name ∈ names, DiskPath.IsName name)
    (hs : ∀ name ∈ names, isTooLong name = false)
    (hdir : ∀ front, front ≠ [] → front <+: names → d.at? (here ++ front) = some .directory)
    (m : Nat) : d.strides .entry m here (names ++ [.text "."]) = .ok (here ++ names) := by
  induction names generalizing here with
  | nil => rw [List.nil_append, strides_dot, strides_nil, List.append_nil]
  | cons name names ih =>
    have hat : d.at? (here ++ [name]) = some .directory := hdir [name] (by simp) (by simp)
    have hlink : ∀ target, d.at? (here ++ [name]) ≠ some (.link target) := by simp [hat]
    have hturn := turn_name (hn name List.mem_cons_self) (hs name List.mem_cons_self) hlink m
    simp only [hat] at hturn
    have hrest : d.strides .entry m (here ++ [name]) (names ++ [.text "."]) =
        .ok (here ++ [name] ++ names) := by
      refine ih (fun other ho => hn other (List.mem_cons_of_mem name ho))
        (fun other ho => hs other (List.mem_cons_of_mem name ho)) fun front hne hp => ?_
      have hfront := hdir (name :: front) (by simp) (List.cons_prefix_cons.mpr ⟨rfl, hp⟩)
      simpa using hfront
    rw [List.cons_append, strides_cons, hturn]
    simpa using hrest

/-- A path that goes on with names leads on, if they lead into one directory after the other. -/
theorem Leads.descend (h : d.Leads p here) (ha : Admits p names)
    (hdir : ∀ front, front ≠ [] → front <+: names → d.at? (here ++ front) = some .directory) :
    d.Leads (p.descend names) (here ++ names) where
  accepted := ha.accepted
  way := by
    have hns : ∀ name ∈ names, name ≠ .text "" := fun name hn => (ha.isName name hn).1
    have hs : d.start (p.descend names) = d.start p := by
      rw [start, start, DiskPath.absolute_descend hns]
    obtain ⟨m, hm⟩ := strides_append h.way
    rw [hs, DiskPath.passes_descend hns, List.append_assoc, hm]
    exact strides_directories ha.isName ha.short hdir m
  directory := by
    by_cases hne : names = []
    · rw [hne, List.append_nil]
      exact h.directory
    · exact hdir names hne (List.prefix_refl _)

namespace Rooted

theorem includes (h : d.Rooted base p root) : d.Includes base := by
  intro place entry he
  rw [h.same place, he]
  rintro way hne rfl
  rw [h.empty way hne] at he
  cases he

theorem leads (h : d.Rooted base p root) : d.Leads p root := h.led.mono h.includes h.current

theorem directory (h : d.Rooted base p root) : d.at? root = some .directory := h.leads.directory

/-- Whatever stands above something is a directory. -/
theorem above (h : d.Rooted base p root) (hs : (d.at? (root ++ (way ++ more))).isSome)
    (hne : more ≠ []) : d.at? (root ++ way) = some .directory := by
  -- each name stands in a directory, from the last one up
  induction more using List.reverseRecOn with
  | nil => exact absurd rfl hne
  | append_singleton more name ih =>
    rw [← List.append_assoc way] at hs
    have hdir := h.nested _ _ hs
    by_cases hm : more = []
    · subst hm
      simpa using hdir
    · exact ih (by rw [hdir]; rfl) hm

/-- Nothing stands below what is no directory. -/
theorem leaf (h : d.Rooted base p root) (hat : d.at? (root ++ way) ≠ some .directory)
    (hne : more ≠ []) : d.at? (root ++ (way ++ more)) = none := by
  by_contra hsome
  exact hat (h.above (Option.isSome_iff_ne_none.mpr hsome) hne)

/-- The names of something in a tree lead to it. -/
theorem strides_below (h : d.Rooted base p root) (way : List FileName)
    (hn : ∀ name ∈ names, DiskPath.IsName name) (hs : ∀ name ∈ names, isTooLong name = false)
    (m : Nat) (hat : (d.at? (root ++ (way ++ names))).isSome) :
    d.strides .entry m (root ++ way) names = .ok (root ++ (way ++ names)) := by
  induction names generalizing way with
  | nil => simp
  | cons name names ih =>
    have hsplit : way ++ name :: names = way ++ [name] ++ names := by simp
    have hlink : ∀ target, d.at? (root ++ way ++ [name]) ≠ some (.link target) := by
      rw [List.append_assoc]
      exact h.linkless (way ++ [name])
    rw [strides_cons, turn_name (hn name List.mem_cons_self) (hs name List.mem_cons_self) hlink]
    rw [hsplit] at hat ⊢
    by_cases hne : names = []
    · subst hne
      rw [List.append_nil, ← List.append_assoc] at hat ⊢
      obtain ⟨entry, he⟩ := Option.isSome_iff_exists.mp hat
      rw [he]
      cases entry <;> simp
    · have hdir := h.above hat hne
      rw [← List.append_assoc] at hdir
      rw [hdir]
      simp only [List.nil_append]
      rw [List.append_assoc root way [name]]
      exact ih _ (fun other ho => hn other (List.mem_cons_of_mem _ ho))
        (fun other ho => hs other (List.mem_cons_of_mem _ ho)) hat

/-- Names of nothing lead nowhere: they run through a file, or stop where nothing is. -/
theorem strides_missing (h : d.Rooted base p root) (way : List FileName)
    (hn : ∀ name ∈ names, DiskPath.IsName name) (hs : ∀ name ∈ names, isTooLong name = false)
    (m : Nat)
    (hdir : d.at? (root ++ way) = some .directory) (hat : d.at? (root ++ (way ++ names)) = none) :
    ∃ e, d.strides .entry m (root ++ way) names = .error e ∧ e.isMissing ∧
      ((∀ front, front <+: names → ∀ file, d.at? (root ++ (way ++ front)) ≠ some (.file file)) →
        e = .noEntry) := by
  induction names generalizing way with
  | nil =>
    rw [List.append_nil, hdir] at hat
    cases hat
  | cons name names ih =>
    have hsplit : way ++ name :: names = way ++ [name] ++ names := by simp
    have hlink : ∀ target, d.at? (root ++ way ++ [name]) ≠ some (.link target) := by
      rw [List.append_assoc]
      exact h.linkless (way ++ [name])
    rw [strides_cons, turn_name (hn name List.mem_cons_self) (hs name List.mem_cons_self) hlink]
    rw [List.append_assoc root way [name]] at hlink ⊢
    rcases he : d.at? (root ++ (way ++ [name])) with _ | ⟨_ | file | target⟩
    · exact ⟨.noEntry, by simp, rfl, fun _ => rfl⟩
    · rw [hsplit] at hat
      simp only [List.nil_append]
      obtain ⟨e, hw, hm, hnone⟩ := ih _ (fun other ho => hn other (List.mem_cons_of_mem _ ho))
        (fun other ho => hs other (List.mem_cons_of_mem _ ho)) he hat
      refine ⟨e, hw, hm, fun hf => hnone ?_⟩
      intro front hp file hfile
      apply hf (name :: front) (List.cons_prefix_cons.mpr ⟨rfl, hp⟩) file
      simpa using hfile
    · have hne : names ≠ [] := by
        rintro rfl
        rw [he] at hat
        cases hat
      refine ⟨.notDirectory, by simp [hne], rfl, ?_⟩
      intro hf
      exact absurd he (hf [name] (by simp) file)
    · exact absurd he (hlink target)

/-! ## What paths find -/

/-- A path into a tree leads to the place of its names if something stands there. -/
theorem walk (h : d.Rooted base p root) (ha : Admits p names)
    (hat : (d.at? (root ++ names)).isSome) : d.walk (p.descend names) = .ok (root ++ names) := by
  by_cases hne : names = []
  · subst hne
    rw [List.append_nil]
    exact h.leads.walk
  · obtain ⟨m, hm⟩ := h.leads.reach ha.accepted ha.isName hne
    have hw := h.strides_below [] ha.isName ha.short m hat
    rw [List.append_nil] at hw
    exact (hm .entry).trans hw

/-- A path into a tree leads nowhere if nothing stands at the place of its names. -/
theorem walk_missing (h : d.Rooted base p root) (ha : Admits p names)
    (hat : d.at? (root ++ names) = none) :
    ∃ e, d.walk (p.descend names) = .error e ∧ e.isMissing := by
  have hne : names ≠ [] := by
    rintro rfl
    rw [List.append_nil, h.directory] at hat
    cases hat
  obtain ⟨m, hm⟩ := h.leads.reach ha.accepted ha.isName hne
  obtain ⟨e, hw, hmiss, -⟩ := h.strides_missing [] ha.isName ha.short m
    (by simpa using h.directory) hat
  rw [List.append_nil] at hw
  exact ⟨e, (hm .entry).trans hw, hmiss⟩

/-- A path into a tree finds what stands at the place of its names. -/
theorem stat (h : d.Rooted base p root) (ha : Admits p names) {entry : DiskEntry}
    (hat : d.at? (root ++ names) = some entry) : d.stat (p.descend names) = .ok entry := by
  unfold Disk.stat
  rw [h.walk ha (by rw [hat]; rfl)]
  simp only [hat]

theorem stat_missing (h : d.Rooted base p root) (ha : Admits p names)
    (hat : d.at? (root ++ names) = none) :
    ∃ e, d.stat (p.descend names) = .error e ∧ e.isMissing := by
  obtain ⟨e, hw, hmiss⟩ := h.walk_missing ha hat
  refine ⟨e, ?_, hmiss⟩
  unfold Disk.stat
  rw [hw]

/-- The last name of a path into a tree stands in the directory of the others. -/
theorem locate (h : d.Rooted base p root) (ha : Admits p (names ++ [name]))
    (hat : d.at? (root ++ names) = some .directory) :
    d.approach (p.descend (names ++ [name])) = .ok (root ++ names, some name) ∧
      d.locate (p.descend (names ++ [name])) = .ok (root ++ names, some name) := by
  have hn := fun other ho => ha.isName other (List.mem_append_left [name] ho)
  have hs := fun other ho => ha.short other (List.mem_append_left [name] ho)
  obtain ⟨m, hm⟩ := h.leads.approach ha.accepted ha.isName
  have hw := strides_concat_dot (h.strides_below [] hn hs m (by simp [hat])) hat
  rw [List.append_nil] at hw
  rw [hw] at hm
  refine ⟨hm, ?_⟩
  unfold Disk.locate
  rw [hm]
  simp [ha.short name (by simp)]

/-- If the names but the last lead to nothing, and not through a file, no entry is there. -/
theorem locate_noEntry (h : d.Rooted base p root) (ha : Admits p (names ++ [name]))
    (hat : d.at? (root ++ names) = none)
    (hf : ∀ front, front <+: names → ∀ file, d.at? (root ++ front) ≠ some (.file file)) :
    d.locate (p.descend (names ++ [name])) = .error .noEntry := by
  have hn := fun other ho => ha.isName other (List.mem_append_left [name] ho)
  have hs := fun other ho => ha.short other (List.mem_append_left [name] ho)
  obtain ⟨m, hm⟩ := h.leads.approach ha.accepted ha.isName
  obtain ⟨e, hw, -, hnone⟩ := h.strides_missing [] hn hs m (by simpa using h.directory) hat
  obtain rfl := hnone hf
  rw [List.append_nil] at hw
  rw [strides_error_append hw] at hm
  unfold Disk.locate
  rw [hm]

/-- A path into a tree whose last name is still free leads to the place of the name. -/
theorem reach_free (h : d.Rooted base p root) (ha : Admits p (names ++ [name]))
    (hdir : d.at? (root ++ names) = some .directory)
    (hat : d.at? (root ++ (names ++ [name])) = none) :
    d.reach .name (p.descend (names ++ [name])) = .ok (root ++ (names ++ [name])) := by
  have hn := fun other ho => ha.isName other (List.mem_append_left [name] ho)
  have hs := fun other ho => ha.short other (List.mem_append_left [name] ho)
  obtain ⟨m, hm⟩ := h.leads.reach ha.accepted ha.isName (by simp)
  have hw := strides_concat_dot (h.strides_below [] hn hs m (by simp [hdir])) hdir
  rw [List.append_nil] at hw
  obtain ⟨k, hk⟩ := strides_append hw
  have hlink : ∀ target, d.at? (root ++ names ++ [name]) ≠ some (.link target) := by
    rw [List.append_assoc]
    exact h.linkless (names ++ [name])
  rw [hm, hk, List.nil_append, strides_cons,
    turn_name (ha.isName name (by simp)) (ha.short name (by simp)) hlink, List.append_assoc, hat]
  rfl

end Rooted

end Disk

end BlobStore
