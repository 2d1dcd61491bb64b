import BlobStore.Proofs.Disk.Parent

/-!
# Ways that stay

A path leads over what stands at a place if it would not lead where it does without it. A path that
leads to something goes on to lead there, whatever else is done to a disk, as long as it leads over
nothing that changes. It leads over no file, and a path to a file does not lead over that file or
over a link in its place, since what follows a link to a file has come to its end.

## Main definitions

* `Disk.place?`: the place of what a path names, where a link is not followed
* `Disk.PassesOver`: a path leads over a place

## Main results

* `Disk.strides_steady`, `Disk.place?_steady`: where a path leads on a disk that has changed
* `Disk.not_passesOver_of_append`: what a path leads over, a path that goes on from it does
* `Disk.not_passesOver_file`, `Disk.not_passesOver_source`: what a path does not lead over
-/

namespace BlobStore

namespace Disk

variable {d e : Disk} {p q : DiskPath} {here there place x : Place} {n m : Nat}
  {pieces more names : List FileName} {name piece : FileName}

/-! ## Walks on a changed disk -/

theorem at?_erase_of_ne (h : x ≠ place) : (d.erase x).at? place = d.at? place := by
  cases place with
  | nil => rfl
  | cons first rest =>
    show (d.entries.erase x).get? (first :: rest) = d.entries.get? (first :: rest)
    rw [OrderedMap.get?_erase, if_neg h]

theorem at?_erase_self (h : x ≠ []) : (d.erase x).at? x = none := by
  rw [at?_erase h, if_pos rfl]

/-- A disk holds what is left without the entry at a place. -/
theorem includes_erase (d : Disk) (x : Place) : d.Includes (d.erase x) := by
  intro place entry h
  by_cases he : x = place
  · subst he
    cases x with
    | nil => exact h
    | cons first rest =>
      rw [at?_erase_self (by simp)] at h
      cases h
  · rwa [at?_erase_of_ne he] at h

/-- Where nothing stands, a path goes on as it does if something did not. -/
theorem erase_includes (h : d.at? x = none) : (d.erase x).Includes d := by
  intro place entry hat
  rw [at?_erase_of_ne ?_, hat]
  rintro rfl
  rw [h] at hat
  cases hat

theorem turn_congr (h : e.at? (here ++ [piece]) = d.at? (here ++ [piece])) :
    e.turn n here piece = d.turn n here piece := by
  unfold turn
  rw [h]

/-- A turn that needs no entry is the same on every disk. -/
theorem turn_eq_of_erase (h : ∀ next, (d.erase (here ++ [piece])).turn n here piece ≠ .absent next)
    (e : Disk) : e.turn n here piece = d.turn n here piece := by
  have hnone : (d.erase (here ++ [piece])).at? (here ++ [piece]) = none := at?_erase_self (by simp)
  unfold turn at h ⊢
  rw [hnone] at h
  split_ifs at h ⊢ with hdot hup hlong
  · rfl
  · rfl
  · rfl
  · exact absurd rfl (h (here ++ [piece]))

/-- A walk goes where it went, if it would go there without any of what has changed. -/
theorem strides_steady (h : d.strides .entry n here pieces = .ok there)
    (hx : ∀ x, e.at? x ≠ d.at? x → (d.erase x).strides .entry n here pieces = .ok there) :
    e.strides .entry n here pieces = .ok there := by
  -- along the walk on the old disk: no turn of it is at a place that has changed
  induction n, here, pieces using walk_induction d with
  | nil n here => simpa using h
  | cons n here piece rest ih =>
    have hpresent : ∀ x, (d.erase x).strides .entry n here (piece :: rest) = .ok there →
        ∀ next, (d.erase x).turn n here piece ≠ .absent next := by
      intro x hw next ht
      rw [strides_cons, ht] at hw
      simp at hw
    have hturn : e.turn n here piece = d.turn n here piece := by
      by_cases hsame : e.at? (here ++ [piece]) = d.at? (here ++ [piece])
      · exact turn_congr hsame
      · exact turn_eq_of_erase (hpresent _ (hx _ hsame)) e
    rw [strides_cons] at h ⊢
    rw [hturn]
    cases ht : d.turn n here piece with
    | onward m next detour =>
      rw [ht] at h
      refine ih m next detour ht h fun x hchanged => ?_
      have hw := hx x hchanged
      have herase := (includes_erase d x).turn (hpresent x hw)
      rwa [strides_cons, ← herase, ht] at hw
    | file next =>
      rw [ht] at h
      exact h
    | absent next => simp [ht] at h
    | refused e => simp [ht] at h

/-- A turn goes the same way however many links may be followed, unless it is refused. -/
theorem turn_cases (d : Disk) (n m : Nat) (here : Place) (piece : FileName) :
    (∃ k k' next detour, d.turn n here piece = .onward k next detour ∧
        d.turn m here piece = .onward k' next detour) ∨
      (∃ next, d.turn n here piece = .file next ∧ d.turn m here piece = .file next) ∨
      (∃ next, d.turn n here piece = .absent next) ∨
      (∃ e, d.turn n here piece = .refused e) ∨ ∃ e, d.turn m here piece = .refused e := by
  unfold turn
  split_ifs
  · exact .inl ⟨n, m, _, _, rfl, rfl⟩
  · exact .inl ⟨n, m, _, _, rfl, rfl⟩
  · exact .inr (.inr (.inr (.inl ⟨_, rfl⟩)))
  · rcases d.at? (here ++ [piece]) with _ | ⟨_ | file | target⟩
    · exact .inr (.inr (.inl ⟨_, rfl⟩))
    · exact .inl ⟨n, m, _, _, rfl, rfl⟩
    · exact .inr (.inl ⟨_, rfl, rfl⟩)
    · cases n with
      | zero => exact .inr (.inr (.inr (.inl ⟨_, rfl⟩)))
      | succ n =>
        cases m with
        | zero => exact .inr (.inr (.inr (.inr ⟨_, rfl⟩)))
        | succ m => exact .inl ⟨n, m, _, _, rfl, rfl⟩

/-- Where a walk goes does not depend on how many links it may follow. -/
theorem strides_unique (h : d.strides .entry n here pieces = .ok there)
    (h' : d.strides .entry m here pieces = .ok place) : there = place := by
  -- along both walks at once: they turn alike, or one of them is refused
  induction n, here, pieces using walk_induction d generalizing m with
  | nil n here =>
    rw [strides_nil] at h h'
    exact Except.ok.inj (h.symm.trans h')
  | cons n here piece rest ih =>
    rw [strides_cons] at h h'
    rcases d.turn_cases n m here piece with ⟨k, k', next, detour, ht, ht'⟩ | ⟨next, ht, ht'⟩ |
      ⟨next, ht⟩ | ⟨e, ht⟩ | ⟨e, ht'⟩
    · rw [ht] at h
      rw [ht'] at h'
      exact ih k next detour ht h h'
    · rw [ht] at h
      rw [ht'] at h'
      exact Except.ok.inj (h.symm.trans h')
    · simp [ht] at h
    · simp [ht] at h
    · simp [ht'] at h'

/-- The first part of a walk leads to a directory. -/
theorem strides_front (h : d.strides .entry n here (pieces ++ more) = .ok there) (hm : more ≠ []) :
    ∃ mid, d.strides .entry n here (pieces ++ [.text "."]) = .ok mid := by
  cases hw : d.strides .entry n here (pieces ++ [.text "."]) with
  | ok mid => exact ⟨mid, rfl⟩
  | error e =>
    rw [strides_append_error hw hm] at h
    cases h

/-- A walk that leads to a file does not go on. -/
theorem strides_past_file (hw : d.Whole) (hd : d.at? here = some .directory)
    (h : d.strides .entry n here pieces = .ok place) {file : DiskFile}
    (hat : d.at? place = some (.file file)) (hm : more ≠ []) :
    d.strides .entry m here (pieces ++ more) ≠ .ok there := by
  intro hfar
  obtain ⟨mid, hmid⟩ := strides_front hfar hm
  obtain ⟨k, hk⟩ := strides_append hmid
  have hend : d.strides .entry m here pieces = .ok mid := by
    simpa using hk .entry []
  have hdir := hw.strides hmid hd
  rw [strides_unique hend h, hat] at hdir
  cases hdir

/-- A walk goes where it went without what stands at a place, if no walk gets anywhere over it. -/
theorem strides_erase (hw : d.Whole) (hd : d.at? here = some .directory)
    (h : d.strides .entry n here (pieces ++ [.text "."]) = .ok there)
    (hx : ∀ n here piece rest there, here ++ [piece] = x → piece ≠ .text "." → piece ≠ .text ".." →
      d.at? here = some .directory →
        d.strides .entry n here (piece :: (rest ++ [.text "."])) ≠ .ok there) :
    (d.erase x).strides .entry n here (pieces ++ [.text "."]) = .ok there := by
  induction n, here, pieces using walk_induction d with
  | nil n here =>
    rw [List.nil_append, strides_dot, strides_nil] at h ⊢
    exact h
  | cons n here piece rest ih =>
    rw [List.cons_append] at h ⊢
    have hturn : (d.erase x).turn n here piece = d.turn n here piece := by
      by_cases hdot : piece = .text "."
      · simp [turn, hdot]
      by_cases hup : piece = .text ".."
      · simp [turn, hup]
      · exact turn_congr (at?_erase_of_ne fun he =>
          hx n here piece rest there he.symm hdot hup hd h)
    rw [strides_cons] at h ⊢
    rw [hturn]
    cases ht : d.turn n here piece with
    | onward m next detour =>
      rw [ht] at h
      simp only [← List.append_assoc] at h ⊢
      exact ih m next detour ht (hw.turn hd ht) h
    | file next => simp [ht] at h
    | absent next => simp [ht] at h
    | refused e => simp [ht] at h

/-- Names that are walked along are short. -/
theorem strides_short (h : d.strides .entry n here pieces = .ok there) :
    ∀ piece ∈ pieces, isTooLong piece = false := by
  induction n, here, pieces using walk_induction d with
  | nil n here => simp
  | cons n here piece rest ih =>
    rw [strides_cons] at h
    have hpiece : isTooLong piece = false := by
      by_contra hlong
      rw [Bool.not_eq_false] at hlong
      have hdot : piece ≠ .text "." := by rintro rfl; revert hlong; decide
      have hup : piece ≠ .text ".." := by rintro rfl; revert hlong; decide
      simp [turn, hdot, hup, hlong] at h
    have hrest : ∀ other ∈ rest, isTooLong other = false := by
      cases ht : d.turn n here piece with
      | onward m next detour =>
        rw [ht] at h
        exact fun other ho => ih m next detour ht h other (List.mem_append_right _ ho)
      | file next =>
        rw [ht] at h
        cases rest with
        | nil => simp
        | cons _ _ => simp at h
      | absent next => simp [ht] at h
      | refused e => simp [ht] at h
    exact List.forall_mem_cons.mpr ⟨hpiece, hrest⟩

/-- A walk goes on only where something stands. -/
theorem at?_of_strides_cons (hdot : piece ≠ .text ".") (hup : piece ≠ .text "..")
    (h : d.strides .entry n here (piece :: more) = .ok there) :
    (d.at? (here ++ [piece])).isSome := by
  by_contra hnone
  rw [Option.not_isSome_iff_eq_none] at hnone
  rw [strides_cons] at h
  by_cases hlong : isTooLong piece
  · simp [turn, hdot, hup, hlong] at h
  · have ht : d.turn n here piece = .absent (here ++ [piece]) := by
      rw [turn, if_neg hdot, if_neg hup, if_neg hlong, hnone]
    simp [ht] at h

/-- No walk leads over a file to a directory. -/
theorem strides_over_file {file : DiskFile} (hdot : piece ≠ .text ".") (hup : piece ≠ .text "..")
    (hat : d.at? (here ++ [piece]) = some (.file file)) :
    d.strides .entry n here (piece :: (more ++ [.text "."])) ≠ .ok there := by
  intro h
  rw [strides_cons] at h
  by_cases hlong : isTooLong piece <;> simp [turn, hdot, hup, hlong, hat] at h

/-! ## Places of what paths name -/

/-- The place of what a path names, where a link is not followed. -/
def place? (d : Disk) (p : DiskPath) : Option Place :=
  match d.approach p with
  | .ok (here, some name) => some (here ++ [name])
  | _ => none

/-- The last name of a path stands in a directory that the pieces before it lead to. -/
structure Finds (d : Disk) (p : DiskPath) (front : List FileName) (name : FileName) (here : Place) :
    Prop where
  accepted : refuse p = none
  passes : p.passes = front ++ [name]
  not_dot : name ≠ .text "."
  not_up : name ≠ .text ".."
  way : d.strides .entry linkLimit (d.start p) (front ++ [.text "."]) = .ok here

/-- A path leads over a place: it would not lead where it does without what stands there. -/
def PassesOver (d : Disk) (p : DiskPath) (x : Place) : Prop := (d.erase x).place? p ≠ d.place? p

instance decidablePassesOver (d : Disk) (p : DiskPath) (x : Place) : Decidable (d.PassesOver p x) :=
  inferInstanceAs (Decidable (_ ≠ _))

theorem finds_of_place? (h : d.place? p = some place) :
    ∃ front name here, d.Finds p front name here ∧ place = here ++ [name] := by
  unfold place? at h
  split at h
  · rename_i here name ha
    obtain ⟨front, hp, hdot, hup, hs⟩ := approach_eq_some ha
    have haccepted : refuse p = none := by
      unfold approach at ha
      split at ha
      · cases ha
      · assumption
    exact ⟨front, name, here, ⟨haccepted, hp, hdot, hup, hs⟩, (Option.some.inj h).symm⟩
  · cases h

theorem place?_of_locate (h : d.locate p = .ok (here, some name)) :
    d.place? p = some (here ++ [name]) := by
  have ha : d.approach p = .ok (here, some name) := by
    unfold locate at h
    split at h
    · cases h
    · split at h
      · cases h
      · rename_i ha _
        rw [ha, Except.ok.inj h]
  unfold place?
  rw [ha]

namespace Finds

variable {front : List FileName}

theorem approach (h : d.Finds p front name here) : d.approach p = .ok (here, some name) := by
  unfold Disk.approach
  rw [h.accepted]
  simp only [h.passes, List.dropLast_concat, h.way, List.getLast?_concat]
  split
  · simp_all
  · exact absurd (Option.some.inj ‹_›) h.not_dot
  · exact absurd (Option.some.inj ‹_›) h.not_up
  · simp_all

theorem place?_eq (h : d.Finds p front name here) : d.place? p = some (here ++ [name]) := by
  unfold Disk.place?
  rw [h.approach]

theorem passesOver_iff (h : d.Finds p front name here) :
    ¬ d.PassesOver p x ↔
      (d.erase x).strides .entry linkLimit (d.start p) (front ++ [.text "."]) = .ok here := by
  unfold PassesOver
  rw [not_not, h.place?_eq]
  constructor
  · intro he
    obtain ⟨front', name', here', hfinds, hplace⟩ := finds_of_place? he
    obtain ⟨rfl, hname⟩ := List.append_inj' (h.passes.symm.trans hfinds.passes) rfl
    obtain ⟨rfl, -⟩ := List.append_inj' hplace rfl
    exact hfinds.way
  · intro hs
    exact Finds.place?_eq ⟨h.accepted, h.passes, h.not_dot, h.not_up, hs⟩

/-- A path that leads over nothing that has changed leads where it did. -/
theorem steady (h : d.Finds p front name here) (hc : e.current = d.current)
    (hx : ∀ x, e.at? x ≠ d.at? x → ¬ d.PassesOver p x) : e.Finds p front name here where
  accepted := h.accepted
  passes := h.passes
  not_dot := h.not_dot
  not_up := h.not_up
  way := by
    have hs : e.start p = d.start p := by rw [start, start, hc]
    rw [hs]
    exact strides_steady h.way fun x hchanged => h.passesOver_iff.mp (hx x hchanged)

/-- The first part of the way leads to a directory, and stays as long as the whole way does. -/
theorem first (h : d.Finds p (pieces ++ more) name here) :
    ∃ above, d.strides .entry linkLimit (d.start p) (pieces ++ [.text "."]) = .ok above ∧
      ∀ x, ¬ d.PassesOver p x →
        (d.erase x).strides .entry linkLimit (d.start p) (pieces ++ [.text "."]) = .ok above := by
  have hway := h.way
  rw [List.append_assoc] at hway
  obtain ⟨above, habove⟩ := strides_front hway (by simp)
  refine ⟨above, habove, fun x hx => ?_⟩
  have hway' := h.passesOver_iff.mp hx
  rw [List.append_assoc] at hway'
  obtain ⟨above', habove'⟩ := strides_front hway' (by simp)
  have hsame := (includes_erase d x).strides habove'
  rw [habove] at hsame
  rw [habove', Except.ok.inj hsame]

/-- The names before the last are short. -/
theorem short (h : d.Finds p front name here) : ∀ piece ∈ front, isTooLong piece = false :=
  fun piece hp => strides_short h.way piece (List.mem_append_left _ hp)

end Finds

theorem place?_ne_nil (h : d.place? p = some place) : place ≠ [] := by
  obtain ⟨front, name, here, -, rfl⟩ := finds_of_place? h
  simp

/-- A path leads to the same place on a larger disk. -/
theorem Includes.place? (h : e.Includes d) (hc : e.current = d.current)
    (hp : d.place? p = some place) : e.place? p = some place := by
  obtain ⟨front, name, here, hfinds, rfl⟩ := finds_of_place? hp
  have hs : e.start p = d.start p := by rw [start, start, hc]
  exact Finds.place?_eq ⟨hfinds.accepted, hfinds.passes, hfinds.not_dot, hfinds.not_up,
    hs ▸ h.strides hfinds.way⟩

theorem place?_steady (hp : d.place? p = some place) (hc : e.current = d.current)
    (hx : ∀ x, e.at? x ≠ d.at? x → ¬ d.PassesOver p x) : e.place? p = some place := by
  obtain ⟨front, name, here, hfinds, rfl⟩ := finds_of_place? hp
  exact (hfinds.steady hc hx).place?_eq

/-- A path that leads somewhere on a smaller disk leads over nothing that is missing there. -/
theorem not_passesOver_of_includes (hi : d.Includes e) (hc : e.current = d.current)
    (hp : e.place? p = some place) (hx : e.at? x ≠ d.at? x) : ¬ d.PassesOver p x := by
  have herase : (d.erase x).Includes e := by
    intro y entry hy
    rw [at?_erase_of_ne ?_, hi y entry hy]
    rintro rfl
    exact hx (hy.trans (hi x entry hy).symm)
  rw [PassesOver, herase.place? hc.symm hp, hi.place? hc.symm hp]
  exact not_not.mpr rfl

/-- A path leads over nothing where nothing stands. -/
theorem not_passesOver_none (h : d.place? p = some place) (hat : d.at? x = none) :
    ¬ d.PassesOver p x := by
  obtain ⟨front, name, here, hfinds, -⟩ := finds_of_place? h
  exact hfinds.passesOver_iff.mpr ((erase_includes hat).strides hfinds.way)

/-- A path leads over no file. -/
theorem not_passesOver_file (hw : d.Whole) (h : d.place? p = some place) {file : DiskFile}
    (hat : d.at? x = some (.file file)) : ¬ d.PassesOver p x := by
  obtain ⟨front, name, here, hfinds, -⟩ := finds_of_place? h
  refine hfinds.passesOver_iff.mpr (strides_erase hw (hw.start p) hfinds.way ?_)
  rintro n here piece rest there rfl hdot hup hd hs
  exact strides_over_file hdot hup hat hs

/-- A path to a file has a last name. -/
theorem finds_of_stat (hw : d.Whole) {file : DiskFile} (h : d.stat p = .ok (.file file)) :
    ∃ front name here place, d.Finds p front name here ∧
      d.strides .entry linkLimit (d.start p) (front ++ [name]) = .ok place ∧
      d.at? place = some (.file file) := by
  obtain ⟨place, hwalk, hat⟩ : ∃ place, d.walk p = .ok place ∧ d.at? place = some (.file file) := by
    unfold stat at h
    split at h
    · cases h
    · rename_i place hwalk
      split at h
      · cases h
        exact ⟨place, hwalk, ‹_›⟩
      · cases h
  unfold walk reach at hwalk
  split at hwalk
  · cases hwalk
  rename_i haccepted
  have hopen : ∀ pieces, p.steps ≠ pieces ++ [.text "."] := by
    intro pieces hp
    rw [hp] at hwalk
    rw [hw.strides hwalk (hw.start p)] at hat
    cases hat
  have hsteps : p.steps = p.passes := by
    unfold DiskPath.steps
    split
    · exact absurd (if_pos ‹_›) (hopen p.passes)
    · rfl
  rw [hsteps] at hwalk hopen
  rcases List.eq_nil_or_concat' p.passes with hp | ⟨front, last, hp⟩
  · rw [hp, strides_nil] at hwalk
    rw [← Except.ok.inj hwalk, hw.start p] at hat
    cases hat
  · rw [hp] at hwalk hopen
    obtain ⟨here, hhere⟩ := strides_front hwalk (by simp)
    have hdot : last ≠ .text "." := by
      rintro rfl
      exact hopen front rfl
    have hup : last ≠ .text ".." := by
      rintro rfl
      obtain ⟨m, hm⟩ := strides_append hhere
      have hdir := hw.strides hhere (hw.start p)
      rw [hm, strides_cons] at hwalk
      have hplace : here.dropLast = place := by simpa [turn] using hwalk
      rw [← hplace, hw.dropLast (by rw [hdir]; rfl)] at hat
      cases hat
    exact ⟨front, last, here, place, ⟨haccepted, hp, hdot, hup, hhere⟩, hwalk, hat⟩

/-- A path to a file does not lead over that file, or over a link in its place. -/
theorem not_passesOver_source (hw : d.Whole) {file : DiskFile} (h : d.stat p = .ok (.file file)) :
    ∃ place, d.place? p = some place ∧ ¬ d.PassesOver p place := by
  obtain ⟨front, name, here, place, hfinds, hwalk, hfile⟩ := finds_of_stat hw h
  refine ⟨here ++ [name], hfinds.place?_eq, ?_⟩
  obtain ⟨k, hk⟩ := strides_append hfinds.way
  rw [hk] at hwalk
  refine hfinds.passesOver_iff.mpr (strides_erase hw (hw.start p) hfinds.way ?_)
  intro n here' piece rest there he _ _ hd hs
  obtain ⟨rfl, hpiece⟩ := List.append_inj' he rfl
  rw [← hpiece] at hwalk
  exact strides_past_file hw hd hwalk hfile (List.append_ne_nil_of_right_ne_nil rest (by simp)) hs

theorem start_descend (d : Disk) (h : ∀ name ∈ names, name ≠ .text "") :
    d.start (p.descend names) = d.start p := by
  rw [start, start, DiskPath.absolute_descend h]

/-- The last name of a path that goes on with names stands where the others lead. -/
theorem finds_of_descend (hn : ∀ other ∈ names ++ [name], other ≠ .text "")
    (h : d.place? (p.descend (names ++ [name])) = some place) :
    ∃ here, d.Finds (p.descend (names ++ [name])) (p.passes ++ names) name here ∧
      place = here ++ [name] := by
  obtain ⟨front, last, here, hfinds, rfl⟩ := finds_of_place? h
  have hp := hfinds.passes
  rw [DiskPath.passes_descend hn, ← List.append_assoc] at hp
  obtain ⟨rfl, hlast⟩ := List.append_inj' hp rfl
  obtain rfl := List.singleton_inj.mp hlast
  exact ⟨here, hfinds, rfl⟩

/-- What a path leads over, a path that goes on from it leads over, too. -/
theorem not_passesOver_of_append (hn : ∀ name ∈ names ++ more, DiskPath.IsName name)
    (hne : names ≠ []) (h : d.place? (p.descend (names ++ more)) = some place) :
    ∃ above, d.place? (p.descend names) = some above ∧
      ∀ x, ¬ d.PassesOver (p.descend (names ++ more)) x → ¬ d.PassesOver (p.descend names) x := by
  by_cases hmore : more = []
  · subst hmore
    rw [List.append_nil] at h ⊢
    exact ⟨place, h, fun _ => id⟩
  obtain ⟨init, last, rfl⟩ := List.eq_nil_or_concat' names |>.resolve_left hne
  obtain ⟨mid, final, rfl⟩ := List.eq_nil_or_concat' more |>.resolve_left hmore
  have hns : ∀ name ∈ init ++ [last] ++ (mid ++ [final]), name ≠ .text "" :=
    fun name hm => (hn name hm).1
  have hfirst : ∀ name ∈ init ++ [last], name ≠ .text "" :=
    fun name hm => hns name (List.mem_append_left _ hm)
  rw [← List.append_assoc] at h hns hn ⊢
  obtain ⟨here, hfinds, -⟩ := finds_of_descend hns h
  have hpasses : p.passes ++ (init ++ [last] ++ mid) = p.passes ++ init ++ ([last] ++ mid) := by
    simp
  obtain ⟨above, habove, hstays⟩ := (hpasses ▸ hfinds).first
  rw [start_descend d hns, ← start_descend d hfirst] at habove hstays
  have hshorter : d.Finds (p.descend (init ++ [last])) (p.passes ++ init) last above := by
    refine ⟨?_, ?_, (hn last (by simp)).2.1, (hn last (by simp)).2.2, habove⟩
    · rw [List.append_assoc _ mid] at hfinds hns
      exact refuse_of_descend hfinds.accepted hne hns
    · rw [DiskPath.passes_descend hfirst, List.append_assoc]
  exact ⟨above ++ [last], hshorter.place?_eq, fun x hx => hshorter.passesOver_iff.mpr (hstays x hx)⟩

/-- The names on the way to what a path leads to are short. -/
theorem short_of_append (hn : ∀ name ∈ names ++ more, DiskPath.IsName name) (hmore : more ≠ [])
    (h : d.place? (p.descend (names ++ more)) = some place) :
    ∀ piece ∈ (p.descend names).passes, isTooLong piece = false := by
  obtain ⟨mid, final, rfl⟩ := List.eq_nil_or_concat' more |>.resolve_left hmore
  have hns : ∀ name ∈ names ++ (mid ++ [final]), name ≠ .text "" := fun name hm => (hn name hm).1
  intro piece hpiece
  rw [DiskPath.passes_descend fun name hm => hns name (List.mem_append_left _ hm)] at hpiece
  rw [← List.append_assoc] at h hns
  obtain ⟨here, hfinds, -⟩ := finds_of_descend hns h
  exact hfinds.short piece (by rw [← List.append_assoc]; exact List.mem_append_left _ hpiece)

end Disk

end BlobStore
