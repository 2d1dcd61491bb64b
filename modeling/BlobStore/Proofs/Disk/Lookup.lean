import BlobStore.Proofs.Disk.Change

/-!
# Look-ups in a tree

What a call makes of a path into a tree is settled by one look-up: the names but the last are
entered, one after the other, and the last is looked for where they lead. Names may be too long and
the path may be refused; then the look-up fails. The call does the rest by what was found.

## Main definitions

* `Disk.enter`: directories entered one after the other
* `Disk.lookUp`: what is found at the end of a path into a tree

## Main results

* `Disk.Rooted.approach_eq`, `Disk.Rooted.reach_eq`: walks into a tree are look-ups
* `Disk.Rooted.stat_eq`, `Disk.Rooted.ensureDirectory_eq`, `Disk.Rooted.removeFile_eq`,
  `Disk.Rooted.removeDirectory_eq`, `Disk.Rooted.renameFile_eq`: calls by what is found
* `Disk.lookUp_eq_ok`: a look-up finds what stands at the place of its names
* `Disk.lookUp_congr`: what a look-up depends on
-/

namespace BlobStore

namespace Disk

variable {d d' base : Disk} {p : DiskPath} {root here there : Place} {names : List FileName}
  {name : FileName}

/-! ## Directories one after the other -/

/-- The directory that names lead to, one after the other. -/
def enter (d : Disk) : Place → List FileName → Except DiskError Place
  | here, [] => .ok here
  | here, name :: rest =>
    if isTooLong name then .error .nameTooLong
    else
      match d.at? (here ++ [name]) with
      | none => .error .noEntry
      | some .directory => d.enter (here ++ [name]) rest
      | some _ => .error .notDirectory

theorem enter_eq_ok (h : d.enter here names = .ok there) :
    there = here ++ names ∧ (∀ name ∈ names, isTooLong name = false) ∧
      ∀ front, front ≠ [] → front <+: names → d.at? (here ++ front) = some .directory := by
  induction names generalizing here with
  | nil =>
    cases h
    refine ⟨by simp, by simp, ?_⟩
    intro front hne hp
    exact absurd (List.prefix_nil.mp hp) hne
  | cons name names ih =>
    rw [enter] at h
    split at h
    · cases h
    · rename_i hshort
      split at h
      · cases h
      · rename_i hat
        obtain ⟨rfl, hs, hdir⟩ := ih h
        refine ⟨by simp, ?_, ?_⟩
        · intro other ho
          rcases List.mem_cons.mp ho with rfl | ho
          · simpa using hshort
          · exact hs other ho
        · intro front hne hp
          obtain ⟨first, rest, rfl⟩ := List.exists_cons_of_ne_nil hne
          obtain ⟨rfl, hrp⟩ := List.cons_prefix_cons.mp hp
          by_cases hrest : rest = []
          · subst hrest
            exact hat
          · simpa using hdir rest hrest hrp
      · cases h

/-- Names that lead through directories are entered. -/
theorem enter_directories (hs : ∀ name ∈ names, isTooLong name = false)
    (hdir : ∀ front, front ≠ [] → front <+: names → d.at? (here ++ front) = some .directory) :
    d.enter here names = .ok (here ++ names) := by
  induction names generalizing here with
  | nil => simp [enter]
  | cons name names ih =>
    rw [enter, hs name List.mem_cons_self, hdir [name] (by simp) (by simp)]
    simp only [Bool.false_eq_true, if_false]
    rw [ih (fun other ho => hs other (List.mem_cons_of_mem _ ho))]
    · simp
    · intro front hne hp
      have := hdir (name :: front) (by simp) (List.cons_prefix_cons.mpr ⟨rfl, hp⟩)
      simpa using this

/-- Where names lead depends on what kinds of entries stand along them. -/
theorem enter_congr {α : Type} {f : DiskEntry → α}
    (hf : ∀ entry entry', f entry = f entry' → (entry = .directory ↔ entry' = .directory))
    (h : ∀ front, front ≠ [] → front <+: names →
      (d.at? (here ++ front)).map f = (d'.at? (here ++ front)).map f) :
    d.enter here names = d'.enter here names := by
  induction names generalizing here with
  | nil => rfl
  | cons name names ih =>
    have hhead := h [name] (by simp) (by simp)
    have hrest : d.enter (here ++ [name]) names = d'.enter (here ++ [name]) names := by
      apply ih
      intro front hne hp
      have := h (name :: front) (by simp) (List.cons_prefix_cons.mpr ⟨rfl, hp⟩)
      simpa using this
    rw [enter, enter, hrest]
    rcases hat : d.at? (here ++ [name]) with _ | entry <;>
      rcases hat' : d'.at? (here ++ [name]) with _ | entry'
    · rfl
    · simp [hat, hat'] at hhead
    · simp [hat, hat'] at hhead
    · have hiff := hf entry entry' (by simpa [hat, hat'] using hhead)
      cases entry <;> cases entry' <;> simp_all

/-! ## The last name -/

/-- What is found at the end of a path that goes on with names from a directory. -/
def lookUp (d : Disk) (p : DiskPath) (root : Place) (names : List FileName) (name : FileName) :
    Except DiskError (Option DiskEntry) :=
  match refuse (p.descend (names ++ [name])) with
  | some e => .error e
  | none =>
    match d.enter root names with
    | .error e => .error e
    | .ok here => if isTooLong name then .error .nameTooLong else .ok (d.at? (here ++ [name]))

/-- A look-up finds what stands at the place of its names, if their number and length are within
the limits. -/
theorem lookUp_eq_ok {found : Option DiskEntry} (h : d.lookUp p root names name = .ok found) :
    found = d.at? (root ++ (names ++ [name])) ∧
      refuse (p.descend (names ++ [name])) = none ∧
      (∀ other ∈ names ++ [name], isTooLong other = false) ∧
      (∀ front, front ≠ [] → front <+: names → d.at? (root ++ front) = some .directory) := by
  unfold lookUp at h
  split at h
  · cases h
  · rename_i hr
    split at h
    · cases h
    · rename_i there he
      split at h
      · cases h
      · rename_i hshort
        obtain ⟨rfl, hs, hdir⟩ := enter_eq_ok he
        refine ⟨?_, hr, ?_, hdir⟩
        · cases h
          simp
        · intro other ho
          rcases List.mem_append.mp ho with ho | ho
          · exact hs other ho
          · obtain rfl := List.mem_singleton.mp ho
            simpa using hshort

theorem lookUp_admits (hn : ∀ other ∈ names ++ [name], DiskPath.IsName other)
    {found : Option DiskEntry} (h : d.lookUp p root names name = .ok found) :
    Admits p (names ++ [name]) := by
  obtain ⟨-, hr, hs, -⟩ := lookUp_eq_ok h
  exact ⟨hn, hs, hr⟩

namespace Rooted

/-- The directory in which a look-up ends is there. -/
theorem directory_of_lookUp (h : d.Rooted base p root) {found : Option DiskEntry}
    (hl : d.lookUp p root names name = .ok found) : d.at? (root ++ names) = some .directory := by
  by_cases hne : names = []
  · rw [hne, List.append_nil]
    exact h.directory
  · exact (lookUp_eq_ok hl).2.2.2 names hne (List.prefix_refl _)

/-- A walk into a tree to a directory enters one directory after the other. -/
theorem strides_enter (h : d.Rooted base p root) (way : List FileName)
    (hn : ∀ name ∈ names, DiskPath.IsName name) (m : Nat) :
    d.strides .entry m (root ++ way) (names ++ [.text "."]) = d.enter (root ++ way) names := by
  induction names generalizing way with
  | nil =>
    rw [List.nil_append, strides_dot, strides_nil]
    rfl
  | cons name names ih =>
    have hname := hn name List.mem_cons_self
    have hrest := ih (way ++ [name]) fun other ho => hn other (List.mem_cons_of_mem _ ho)
    rw [List.cons_append, strides_cons, enter]
    by_cases hlong : isTooLong name
    · simp [turn, hname.2.1, hname.2.2, hlong]
    · have hlink : ∀ target, d.at? (root ++ way ++ [name]) ≠ some (.link target) := by
        rw [List.append_assoc]
        exact h.linkless (way ++ [name])
      rw [turn_name hname (by simpa using hlong) hlink, if_neg hlong]
      rcases hat : d.at? (root ++ way ++ [name]) with _ | ⟨_ | file | target⟩
      · simp
      · simp only [List.nil_append]
        rw [List.append_assoc root, hrest]
      · simp
      · exact absurd hat (hlink target)

/-- The last name of a path into a tree stands where the others lead. -/
theorem approach_eq (h : d.Rooted base p root)
    (hn : ∀ other ∈ names ++ [name], DiskPath.IsName other) :
    d.approach (p.descend (names ++ [name])) =
      match refuse (p.descend (names ++ [name])) with
      | some e => .error e
      | none => (d.enter root names).map (·, some name) := by
  cases hr : refuse (p.descend (names ++ [name])) with
  | some e =>
    unfold Disk.approach
    rw [hr]
  | none =>
    obtain ⟨m, hm⟩ := h.leads.approach hr hn
    have he := h.strides_enter [] (fun other ho => hn other (List.mem_append_left _ ho)) m
    rw [List.append_nil] at he
    rw [hm, he]
    cases d.enter root names <;> rfl

theorem locate_eq (h : d.Rooted base p root)
    (hn : ∀ other ∈ names ++ [name], DiskPath.IsName other) :
    d.locate (p.descend (names ++ [name])) =
      (d.lookUp p root names name).map fun _ => (root ++ names, some name) := by
  unfold Disk.locate lookUp
  rw [h.approach_eq hn]
  cases refuse (p.descend (names ++ [name])) with
  | some e => rfl
  | none =>
    cases he : d.enter root names with
    | error e => rfl
    | ok here =>
      obtain ⟨rfl, -, -⟩ := enter_eq_ok he
      by_cases hlong : isTooLong name
      · simp [Except.map, hlong]
      · simp [Except.map, hlong]

/-- A walk into a tree ends where something stands, or where a new name may stand. -/
theorem reach_eq (h : d.Rooted base p root)
    (hn : ∀ other ∈ names ++ [name], DiskPath.IsName other) (goal : Goal) :
    d.reach goal (p.descend (names ++ [name])) =
      match d.lookUp p root names name with
      | .error e => .error e
      | .ok none =>
        if goal = .name then .ok (root ++ (names ++ [name])) else .error .noEntry
      | .ok (some _) => .ok (root ++ (names ++ [name])) := by
  unfold lookUp
  cases hr : refuse (p.descend (names ++ [name])) with
  | some e =>
    unfold Disk.reach
    rw [hr]
  | none =>
    obtain ⟨m, hm⟩ := h.leads.reach hr hn (by simp)
    have hfirst : ∀ other ∈ names, DiskPath.IsName other :=
      fun other ho => hn other (List.mem_append_left _ ho)
    have henter := h.strides_enter [] hfirst m
    rw [List.append_nil] at henter
    rw [hm]
    cases he : d.enter root names with
    | error e =>
      rw [he] at henter
      exact strides_append_error henter (by simp) goal
    | ok here =>
      rw [he] at henter
      obtain ⟨rfl, -, -⟩ := enter_eq_ok he
      obtain ⟨k, hk⟩ := strides_append henter
      have hname := hn name (by simp)
      rw [hk, strides_cons]
      by_cases hlong : isTooLong name
      · simp [turn, hname.2.1, hname.2.2, hlong]
      · have hlink : ∀ target, d.at? (root ++ names ++ [name]) ≠ some (.link target) := by
          rw [List.append_assoc]
          exact h.linkless (names ++ [name])
        rw [turn_name hname (by simpa using hlong) hlink]
        simp only [if_neg hlong, List.append_assoc]
        rcases hat : d.at? (root ++ (names ++ [name])) with _ | ⟨_ | file | target⟩ <;> simp_all

/-- Names within the limits lead to what stands at the last once the others are directories. -/
theorem lookUp_free (h : d.Rooted base p root) (ha : Admits p (names ++ [name]))
    (hdir : d.at? (root ++ names) = some .directory) :
    d.lookUp p root names name = .ok (d.at? (root ++ (names ++ [name]))) := by
  have henter : d.enter root names = .ok (root ++ names) := by
    refine enter_directories (fun other ho => ha.short other (List.mem_append_left _ ho)) ?_
    rintro front - ⟨more, rfl⟩
    by_cases hmore : more = []
    · subst hmore
      simpa using hdir
    · exact h.above (by rw [hdir]; rfl) hmore
  unfold lookUp
  simp only [ha.accepted, henter, ha.short name (by simp), List.append_assoc]
  rfl

/-! ## Calls by what is found -/

theorem walk_eq (h : d.Rooted base p root)
    (hn : ∀ other ∈ names ++ [name], DiskPath.IsName other) :
    d.walk (p.descend (names ++ [name])) =
      match d.lookUp p root names name with
      | .error e => .error e
      | .ok none => .error .noEntry
      | .ok (some _) => .ok (root ++ (names ++ [name])) := by
  unfold Disk.walk
  rw [h.reach_eq hn]
  rfl

theorem stat_eq (h : d.Rooted base p root)
    (hn : ∀ other ∈ names ++ [name], DiskPath.IsName other) :
    d.stat (p.descend (names ++ [name])) =
      match d.lookUp p root names name with
      | .error e => .error e
      | .ok none => .error .noEntry
      | .ok (some entry) => .ok entry := by
  unfold Disk.stat
  rw [h.walk_eq hn]
  cases hl : d.lookUp p root names name with
  | error e => rfl
  | ok found =>
    cases found with
    | none => rfl
    | some entry =>
      obtain ⟨hat, -⟩ := lookUp_eq_ok hl
      simp only [← hat]

/-- What a path into a tree finds stands at the place of its names. -/
theorem at?_of_stat (h : d.Rooted base p root) (hn : ∀ other ∈ names, DiskPath.IsName other)
    {entry : DiskEntry} (hstat : d.stat (p.descend names) = .ok entry) :
    d.at? (root ++ names) = some entry := by
  rcases List.eq_nil_or_concat' names with rfl | ⟨front, name, rfl⟩
  · rw [DiskPath.descend_nil, h.leads.stat] at hstat
    obtain rfl := Except.ok.inj hstat
    rw [List.append_nil, h.directory]
  · rw [h.stat_eq hn] at hstat
    split at hstat
    · cases hstat
    · cases hstat
    · rename_i found hl
      obtain rfl := Except.ok.inj hstat
      exact (lookUp_eq_ok hl).1.symm

/-- A directory is made where nothing is found. -/
theorem ensureDirectory_eq (h : d.Rooted base p root)
    (hn : ∀ other ∈ names ++ [name], DiskPath.IsName other) :
    d.ensureDirectory (p.descend (names ++ [name])) =
      match d.lookUp p root names name with
      | .error e => .error e
      | .ok none => .ok (d.put (root ++ (names ++ [name])) .directory)
      | .ok (some .directory) => .ok d
      | .ok (some _) => .error .exists := by
  unfold Disk.ensureDirectory makeDirectory isDirectory
  rw [h.locate_eq hn, h.stat_eq hn]
  cases hl : d.lookUp p root names name with
  | error e => rfl
  | ok found =>
    obtain ⟨hat, -⟩ := lookUp_eq_ok hl
    simp only [Except.map, List.append_assoc, ← hat]
    rcases found with _ | ⟨_ | file | target⟩ <;> rfl

/-- A file is removed if it is found. -/
theorem removeFile_eq (h : d.Rooted base p root)
    (hn : ∀ other ∈ names ++ [name], DiskPath.IsName other) :
    d.removeFile (p.descend (names ++ [name])) =
      match d.lookUp p root names name with
      | .error e => .error e
      | .ok none => .error .noEntry
      | .ok (some .directory) => .error .isDirectory
      | .ok (some _) => .ok (d.erase (root ++ (names ++ [name]))) := by
  have hopen : (p.descend (names ++ [name])).closed = false :=
    DiskPath.closed_concat names (hn name (by simp)).1
  unfold Disk.removeFile
  rw [h.locate_eq hn, hopen]
  cases hl : d.lookUp p root names name with
  | error e => rfl
  | ok found =>
    obtain ⟨hat, -⟩ := lookUp_eq_ok hl
    simp only [Except.map, List.append_assoc, ← hat]
    rcases found with _ | ⟨_ | file | target⟩ <;> rfl

/-- A directory is removed if it is found and nothing is below it. -/
theorem removeDirectory_eq (h : d.Rooted base p root)
    (hn : ∀ other ∈ names ++ [name], DiskPath.IsName other) :
    d.removeDirectory (p.descend (names ++ [name])) =
      match d.lookUp p root names name with
      | .error e => .error e
      | .ok none => .error .noEntry
      | .ok (some .directory) =>
        if (d.below (root ++ (names ++ [name]))).isEmpty then
          .ok (d.erase (root ++ (names ++ [name])))
        else .error .notEmpty
      | .ok (some _) => .error .notDirectory := by
  unfold Disk.removeDirectory
  rw [h.locate_eq hn]
  cases hl : d.lookUp p root names name with
  | error e => rfl
  | ok found =>
    obtain ⟨hat, -⟩ := lookUp_eq_ok hl
    simp only [Except.map, List.append_assoc, ← hat]
    rcases found with _ | ⟨_ | file | target⟩ <;> rfl

/-- A file is renamed if no directory is found at its new path. -/
theorem renameFile_eq {others : List FileName} {other : FileName} {file : DiskFile}
    (h : d.Rooted base p root) (ha : Admits p (others ++ [other]))
    (hat : d.at? (root ++ (others ++ [other])) = some (.file file))
    (hn : ∀ other ∈ names ++ [name], DiskPath.IsName other)
    (hne : others ++ [other] ≠ names ++ [name]) :
    d.renameFile (p.descend (others ++ [other])) (p.descend (names ++ [name])) =
      match d.lookUp p root names name with
      | .error e => .error e
      | .ok (some .directory) =>
        .error (if names ++ [name] <+: others then .notEmpty else .isDirectory)
      | .ok _ =>
        .ok ((d.erase (root ++ (others ++ [other]))).put (root ++ (names ++ [name]))
          (.file file)) := by
  have hopen : ∀ {names : List FileName} {name : FileName},
      (∀ other ∈ names ++ [name], DiskPath.IsName other) →
        (p.descend (names ++ [name])).closed = false :=
    fun hn => DiskPath.closed_concat _ (hn _ (by simp)).1
  have habove : d.at? (root ++ others) = some .directory :=
    h.nested others other (by rw [hat]; rfl)
  unfold Disk.renameFile lookUp
  rw [(h.locate ha habove).1, h.approach_eq hn]
  cases refuse (p.descend (names ++ [name])) with
  | some e => rfl
  | none =>
    cases he : d.enter root names with
    | error e => rfl
    | ok here =>
      obtain ⟨rfl, -, -⟩ := enter_eq_ok he
      simp only [Except.map, List.append_assoc, hat, hopen ha.isName, hopen hn]
      by_cases hlong : isTooLong name
      · simp [hlong]
      · have hleads : (root ++ (names ++ [name])).isPrefixOf (root ++ others) = true ↔
            names ++ [name] <+: others := by
          rw [List.isPrefixOf_iff_prefix, List.prefix_append_right_inj]
        have hdistinct : root ++ (others ++ [other]) ≠ root ++ (names ++ [name]) :=
          fun he => hne (List.append_cancel_left he)
        by_cases hbefore : names ++ [name] <+: others
        · have hdir : d.at? (root ++ (names ++ [name])) = some .directory := by
            obtain ⟨more, hmore⟩ := hbefore
            have hthere : (d.at? (root ++ ((names ++ [name]) ++ (more ++ [other])))).isSome := by
              rw [← List.append_assoc (names ++ [name]), hmore, hat]
              rfl
            exact h.above hthere (by simp)
          simp [hlong, hleads.mpr hbefore, hbefore, hdir]
        · have hbefore' : (root ++ (names ++ [name])).isPrefixOf (root ++ others) = false := by
            rw [Bool.eq_false_iff]
            exact fun h => hbefore (hleads.mp h)
          simp only [hlong, hbefore', hdistinct, hbefore, if_false, Bool.false_eq_true,
            Bool.or_self]
          rcases d.at? (root ++ (names ++ [name])) with _ | ⟨_ | file | target⟩ <;> rfl

end Rooted

/-! ## What a look-up depends on -/

/-- Where the same kinds of entries stand along names, look-ups fail alike, or both find what stands
at the last name. -/
theorem lookUp_congr {α : Type} {f : DiskEntry → α}
    (hf : ∀ entry entry', f entry = f entry' → (entry = .directory ↔ entry' = .directory))
    (h : ∀ front, front ≠ [] → front <+: names ++ [name] →
      (d.at? (root ++ front)).map f = (d'.at? (root ++ front)).map f) :
    (d.lookUp p root names name).map (Option.map f) =
      (d'.lookUp p root names name).map (Option.map f) := by
  have henter : d.enter root names = d'.enter root names :=
    enter_congr hf fun front hne hp => h front hne (hp.trans (List.prefix_append _ _))
  have hlast := h (names ++ [name]) (by simp) (List.prefix_refl _)
  unfold lookUp
  rw [← henter]
  cases refuse (p.descend (names ++ [name])) with
  | some e => rfl
  | none =>
    cases he : d.enter root names with
    | error e => rfl
    | ok here =>
      obtain ⟨rfl, -, -⟩ := enter_eq_ok he
      by_cases hlong : isTooLong name
      · simp [hlong]
      · simp only [hlong, if_false, Except.map, List.append_assoc, hlast, Bool.false_eq_true]

end Disk

end BlobStore
