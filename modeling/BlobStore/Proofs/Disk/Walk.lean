import BlobStore.Proofs.Disk.Path

/-!
# Walks

A walk along some pieces and more after them is the walk along the first and, from the directory
where that ends, the walk along the others; the links on the way only use up some of those that may
be followed. A walk that gets somewhere gets there on every disk that holds the same and more.

## Main definitions

* `Disk.Turn`, `Disk.turn`: what one piece makes of a walk
* `Disk.Includes`: a disk holds what another holds
* `Disk.Leads`: a path leads to a directory

## Main results

* `Disk.strides_cons`: a walk is a turn at its first piece and the walk after it
* `Disk.strides_append`, `Disk.strides_append_error`: walks one after the other
* `Disk.Includes.strides`: a walk on a larger disk
* `Disk.Leads.reach`, `Disk.Leads.approach`: paths that go on from a directory
-/

namespace BlobStore

namespace Disk

variable {d d' : Disk} {goal : Goal} {n : Nat} {here there : Place} {pieces more : List FileName}

/-! ## One piece -/

/-- What one piece makes of a walk. -/
inductive Turn
  /-- It goes on from a place along some pieces, and those after them; at most so many links are
  still followed. -/
  | onward (n : Nat) (there : Place) (detour : List FileName)
  /-- A file stands there, where a walk can only end. -/
  | file (there : Place)
  /-- Nothing stands there. -/
  | absent (there : Place)
  | refused (e : DiskError)

/-- The turn of a walk at a piece of its path. -/
def turn (d : Disk) (n : Nat) (here : Place) (piece : FileName) : Turn :=
  if piece = .text "." then .onward n here []
  else if piece = .text ".." then .onward n here.dropLast []
  else if isTooLong piece then .refused .nameTooLong
  else
    match d.at? (here ++ [piece]) with
    | none => .absent (here ++ [piece])
    | some .directory => .onward n (here ++ [piece]) []
    | some (.file _) => .file (here ++ [piece])
    | some (.link target) =>
      match n with
      | 0 => .refused .tooManyLinks
      | n + 1 =>
        .onward n (if target.absolute then [] else here) target.steps

@[simp] theorem strides_nil (d : Disk) (goal : Goal) (n : Nat) (here : Place) :
    d.strides goal n here [] = .ok here := by
  cases n <;> rfl

/-- A walk turns at its first piece, and goes on with the others. -/
theorem strides_cons (d : Disk) (goal : Goal) (n : Nat) (here : Place) (piece : FileName)
    (rest : List FileName) :
    d.strides goal n here (piece :: rest) =
      match d.turn n here piece with
      | .onward m there detour => d.strides goal m there (detour ++ rest)
      | .file there => if rest.isEmpty then .ok there else .error .notDirectory
      | .absent there => if rest.isEmpty && goal = .name then .ok there else .error .noEntry
      | .refused e => .error e := by
  unfold turn
  by_cases hdot : piece = .text "."
  · cases n <;> simp [strides, stride, hdot]
  by_cases hup : piece = .text ".."
  · cases n <;> simp [strides, stride, hup]
  by_cases hlong : isTooLong piece
  · cases n <;> simp [strides, stride, hdot, hup, hlong]
  · rcases hat : d.at? (here ++ [piece]) with _ | ⟨_ | _ | _⟩ <;> cases n <;>
      simp [strides, stride, hdot, hup, hlong, hat]

theorem strides_dot (d : Disk) (goal : Goal) (n : Nat) (here : Place) (rest : List FileName) :
    d.strides goal n here (.text "." :: rest) = d.strides goal n here rest := by
  rw [strides_cons]
  rfl

theorem turn_file {piece : FileName} (h : d.turn n here piece = .file there) :
    ∃ file, d.at? there = some (.file file) := by
  unfold turn at h
  split_ifs at h
  split at h
  · cases h
  · cases h
  · rename_i file hat
    cases h
    exact ⟨file, hat⟩
  · split at h <;> cases h

/-- No more links may be followed after a turn than before it, and fewer if it is at a link. -/
theorem turn_decreases {piece : FileName} {m : Nat} {detour : List FileName}
    (h : d.turn n here piece = .onward m there detour) : m < n ∨ (m = n ∧ detour = []) := by
  unfold turn at h
  split_ifs at h
  · cases h
    exact Or.inr ⟨rfl, rfl⟩
  · cases h
    exact Or.inr ⟨rfl, rfl⟩
  · split at h
    · cases h
    · cases h
      exact Or.inr ⟨rfl, rfl⟩
    · cases h
    · split at h
      · cases h
      · cases h
        exact Or.inl (Nat.lt_succ_self _)

/-- What holds of a walk along no pieces, and of a walk if it holds after its first turn, holds of
every walk. -/
theorem walk_induction (d : Disk) {motive : Nat → Place → List FileName → Prop}
    (nil : ∀ n here, motive n here [])
    (cons : ∀ n here piece rest,
      (∀ m there detour, d.turn n here piece = .onward m there detour →
        motive m there (detour ++ rest)) → motive n here (piece :: rest))
    (n : Nat) (here : Place) (pieces : List FileName) : motive n here pieces := by
  induction n using Nat.strong_induction_on generalizing here pieces with
  | _ n fewer =>
    induction pieces generalizing here with
    | nil => exact nil n here
    | cons piece rest ih =>
      apply cons n here piece rest
      intro m there detour h
      rcases turn_decreases h with hm | ⟨rfl, rfl⟩
      · exact fewer m hm there _
      · exact ih there

/-! ## Walks one after the other -/

/-- Once a directory is reached, the rest of a walk starts there; fewer links may be left. -/
theorem strides_append (h : d.strides .entry n here (pieces ++ [.text "."]) = .ok there) :
    ∃ m, ∀ goal more, d.strides goal n here (pieces ++ more) = d.strides goal m there more := by
  induction n, here, pieces using walk_induction d with
  | nil n here =>
    rw [List.nil_append, strides_dot, strides_nil] at h
    cases h
    exact ⟨n, fun _ _ => rfl⟩
  | cons n here piece rest ih =>
    rw [List.cons_append, strides_cons] at h
    simp only [List.cons_append, strides_cons]
    cases ht : d.turn n here piece with
    | onward m next detour =>
      rw [ht] at h
      simp only [← List.append_assoc] at h ⊢
      exact ih m next detour ht h
    | file next => simp [ht] at h
    | absent next => simp [ht] at h
    | refused e => simp [ht] at h

/-- If the way to a directory fails, then so does every walk that goes on from there. -/
theorem strides_append_error {e : DiskError}
    (h : d.strides .entry n here (pieces ++ [.text "."]) = .error e) (hm : more ≠ [])
    (goal : Goal) :
    d.strides goal n here (pieces ++ more) = .error e := by
  induction n, here, pieces using walk_induction d with
  | nil n here =>
    rw [List.nil_append, strides_dot, strides_nil] at h
    cases h
  | cons n here piece rest ih =>
    rw [List.cons_append, strides_cons] at h ⊢
    cases ht : d.turn n here piece with
    | onward m next detour =>
      rw [ht] at h
      simp only [← List.append_assoc] at h ⊢
      exact ih m next detour ht h
    | file next =>
      rw [ht] at h
      simpa [hm] using h
    | absent next =>
      rw [ht] at h
      simpa [hm] using h
    | refused e =>
      rw [ht] at h
      exact h

/-- A walk that fails is not helped by more pieces. -/
theorem strides_error_append {e : DiskError} (h : d.strides .entry n here pieces = .error e)
    (more : List FileName) : d.strides .entry n here (pieces ++ more) = .error e := by
  induction n, here, pieces using walk_induction d with
  | nil n here => simp at h
  | cons n here piece rest ih =>
    rw [strides_cons] at h
    rw [List.cons_append, strides_cons]
    cases ht : d.turn n here piece with
    | onward m next detour =>
      rw [ht] at h
      simp only [← List.append_assoc] at h ⊢
      exact ih m next detour ht h
    | file next =>
      rw [ht] at h
      cases rest with
      | nil => simp at h
      | cons _ _ => simpa using h
    | absent next =>
      rw [ht] at h
      simpa using h
    | refused e =>
      rw [ht] at h
      exact h

/-- A walk that ends at a directory can be said to. -/
theorem strides_concat_dot (h : d.strides .entry n here pieces = .ok there)
    (hd : d.at? there = some .directory) :
    d.strides .entry n here (pieces ++ [.text "."]) = .ok there := by
  induction n, here, pieces using walk_induction d with
  | nil n here =>
    rw [List.nil_append, strides_dot]
    exact h
  | cons n here piece rest ih =>
    rw [strides_cons] at h
    rw [List.cons_append, strides_cons]
    cases ht : d.turn n here piece with
    | onward m next detour =>
      rw [ht] at h
      simp only [← List.append_assoc] at h ⊢
      exact ih m next detour ht h
    | file next =>
      obtain ⟨file, hat⟩ := turn_file ht
      rw [ht] at h
      cases rest with
      | nil =>
        obtain rfl : next = there := by simpa using h
        rw [hat] at hd
        cases hd
      | cons _ _ => simp at h
    | absent next => simp [ht] at h
    | refused e => simp [ht] at h

theorem strides_dots {dots : List FileName} (h : ∀ piece ∈ dots, piece = .text ".") (goal : Goal)
    (n : Nat)
    (here : Place) (rest : List FileName) :
    d.strides goal n here (dots ++ rest) = d.strides goal n here rest := by
  induction dots with
  | nil => rfl
  | cons piece dots ih =>
    obtain rfl := h piece List.mem_cons_self
    rw [List.cons_append, strides_dot]
    exact ih fun other ho => h other (List.mem_cons_of_mem _ ho)

/-- Single dots at the end of the way to a directory do not count. -/
theorem strides_append_dots {dots : List FileName} (h : ∀ piece ∈ dots, piece = .text ".") (n : Nat)
    (here : Place) (pieces : List FileName) :
    d.strides .entry n here (pieces ++ dots ++ [.text "."]) =
      d.strides .entry n here (pieces ++ [.text "."]) := by
  cases hp : d.strides .entry n here (pieces ++ [.text "."]) with
  | ok there =>
    obtain ⟨m, hm⟩ := strides_append hp
    rw [List.append_assoc, hm, strides_dots h, strides_dot, strides_nil]
  | error e =>
    rw [List.append_assoc]
    exact strides_append_error hp (by simp) .entry

/-! ## Larger disks -/

/-- Everything that one disk holds is also on another. -/
def Includes (d' d : Disk) : Prop :=
  ∀ place entry, d.at? place = some entry → d'.at? place = some entry

theorem Includes.refl (d : Disk) : d.Includes d := fun _ _ h => h

theorem Includes.turn {piece : FileName} (h : d'.Includes d)
    (ha : ∀ there, d.turn n here piece ≠ .absent there) :
    d'.turn n here piece = d.turn n here piece := by
  unfold Disk.turn at ha ⊢
  split_ifs
  · rfl
  · rfl
  · rfl
  · cases hat : d.at? (here ++ [piece]) with
    | none => simp_all
    | some entry => rw [h _ _ hat]

/-- A walk that gets somewhere gets there on a larger disk. -/
theorem Includes.strides (h : d'.Includes d) (hw : d.strides .entry n here pieces = .ok there) :
    d'.strides .entry n here pieces = .ok there := by
  induction n, here, pieces using walk_induction d with
  | nil n here => simpa using hw
  | cons n here piece rest ih =>
    have hturn : d'.turn n here piece = d.turn n here piece := by
      apply h.turn
      intro next ht
      rw [strides_cons, ht] at hw
      simp at hw
    rw [strides_cons] at hw ⊢
    rw [hturn]
    cases ht : d.turn n here piece with
    | onward m next detour =>
      rw [ht] at hw
      exact ih m next detour ht hw
    | file next =>
      rw [ht] at hw
      exact hw
    | absent next => simp [ht] at hw
    | refused e => simp [ht] at hw

/-! ## Paths to directories -/

variable {p : DiskPath} {names : List FileName} {name : FileName}

/-- The last step of a path leads to a name only if it is one. -/
theorem approach_eq_some (h : d.approach p = .ok (here, some name)) :
    ∃ front, p.passes = front ++ [name] ∧ name ≠ .text "." ∧ name ≠ .text ".." ∧
      d.strides .entry linkLimit (d.start p) (front ++ [.text "."]) = .ok here := by
  unfold approach at h
  split at h
  · cases h
  · split at h
    · cases h
    · rename_i there hs
      split at h
      · cases h
      · cases h
      · cases h
      · rename_i last hdot hup hlast
        obtain ⟨rfl, hname⟩ := Prod.mk.inj (Except.ok.inj h)
        obtain rfl := Option.some.inj hname
        obtain ⟨front, hp⟩ := List.getLast?_eq_some_iff.mp hlast
        rw [hp, List.dropLast_concat] at hs
        exact ⟨front, hp, hdot, hup, hs⟩

/-- A path leads to a directory. -/
structure Leads (d : Disk) (p : DiskPath) (place : Place) : Prop where
  accepted : refuse p = none
  way : d.strides .entry linkLimit (d.start p) (p.passes ++ [.text "."]) = .ok place
  directory : d.at? place = some .directory

theorem leads_of_walk (h : d.walk p = .ok there) (hd : d.at? there = some .directory) :
    d.Leads p there := by
  unfold walk reach at h
  cases hr : refuse p with
  | some e => simp [hr] at h
  | none =>
    simp only [hr] at h
    refine ⟨hr, ?_, hd⟩
    unfold DiskPath.steps at h
    split at h
    · exact h
    · exact strides_concat_dot h hd

namespace Leads

theorem walk (h : d.Leads p there) : d.walk p = .ok there := by
  unfold Disk.walk Disk.reach
  rw [h.accepted]
  show d.strides .entry linkLimit (d.start p) p.steps = .ok there
  unfold DiskPath.steps
  split
  · exact h.way
  · obtain ⟨m, hm⟩ := strides_append h.way
    simpa using hm .entry []

theorem stat (h : d.Leads p there) : d.stat p = .ok .directory := by
  unfold Disk.stat
  rw [h.walk]
  simp [h.directory]

theorem readDirectory (h : d.Leads p there) : d.readDirectory p = .ok (d.entriesIn there) := by
  unfold Disk.readDirectory
  rw [h.walk]
  simp [h.directory]

/-- The path leads to the same directory on a larger disk. -/
theorem mono (h : d.Leads p there) (hi : d'.Includes d) (hc : d'.current = d.current) :
    d'.Leads p there where
  accepted := h.accepted
  way := by
    have hs : d'.start p = d.start p := by rw [start, start, hc]
    rw [hs]
    exact hi.strides h.way
  directory := hi _ _ h.directory

/-- A path that goes on with names leads on from the directory. -/
theorem reach (h : d.Leads p there) (hf : refuse (p.descend names) = none)
    (hn : ∀ name ∈ names, DiskPath.IsName name) (hne : names ≠ []) :
    ∃ m, ∀ goal, d.reach goal (p.descend names) = d.strides goal m there names := by
  have hns : ∀ name ∈ names, name ≠ .text "" := fun name hm => (hn name hm).1
  obtain ⟨m, hm⟩ := strides_append h.way
  refine ⟨m, ?_⟩
  intro goal
  have hs : d.start (p.descend names) = d.start p := by
    rw [start, start, DiskPath.absolute_descend hns]
  unfold Disk.reach
  rw [hf, hs, DiskPath.steps_descend hne hns]
  exact hm goal names

/-- The last name of a path that goes on stands in the directory that the others lead to. -/
theorem approach (h : d.Leads p there) (hf : refuse (p.descend (names ++ [name])) = none)
    (hn : ∀ other ∈ names ++ [name], DiskPath.IsName other) :
    ∃ m, d.approach (p.descend (names ++ [name])) =
      match d.strides .entry m there (names ++ [.text "."]) with
      | .ok place => .ok (place, some name)
      | .error e => .error e := by
  have hns : ∀ other ∈ names ++ [name], other ≠ .text "" := fun other hm => (hn other hm).1
  obtain ⟨m, hm⟩ := strides_append h.way
  refine ⟨m, ?_⟩
  have hs : d.start (p.descend (names ++ [name])) = d.start p := by
    rw [start, start, DiskPath.absolute_descend hns]
  unfold Disk.approach
  rw [hf, hs, DiskPath.passes_descend hns, ← List.append_assoc, List.dropLast_concat,
    List.getLast?_concat, List.append_assoc, hm]
  obtain ⟨-, hdot, hup⟩ := hn name (by simp)
  cases d.strides .entry m there (names ++ [.text "."]) with
  | error e => rfl
  | ok place =>
    dsimp only
    split
    · rename_i hs
      cases hs
    · rename_i hs
      exact absurd (Option.some.inj hs) hdot
    · rename_i hs
      exact absurd (Option.some.inj hs) hup
    · rename_i hs
      cases hs
      rfl

end Leads

end Disk

end BlobStore
