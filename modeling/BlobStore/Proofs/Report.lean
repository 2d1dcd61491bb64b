import BlobStore.Report
import Mathlib.Data.Rat.Floor
import Mathlib.Data.List.Induction

/-!
# What a report tells

Attributes are set one after the other. The last value that one of them is given is the one that is
read, whatever kind of value it is, and a report shows it only if the kind is right: of a size the
bytes, of an instant the whole milliseconds since the epoch. An instant before the epoch, or one too
late for 64 bits, is not shown. So of two instants that are shown the earlier one has no larger
figure.

## Main definitions

* `Meta.made`: the attributes after some assignments
* `Meta.LastSet`, `Meta.NeverSet`: what assignments leave of an attribute
* `Time.ShownAs`: the figure of an instant
* `Report.ShowsLastSet`: what a report shows

## Main results

* `Meta.read_made_eq_some`, `Meta.read_made_eq_none`: the last value wins
* `Report.millis_eq_some`, `Report.millis_eq_none`: the figures of instants
* `Report.tells_exactly`: reports on attributes set in any way
-/

namespace BlobStore

/-! ## Attributes set one after the other -/

namespace Meta

variable {m : Meta} {which : Attribute} {value : AttributeValue}

/-- An attribute and the value that it is set to; without a value it is left alone. -/
abbrev Assignment := Attribute × Option AttributeValue

variable {assignments : List Assignment}

/-- The attributes after some assignments, from none on. -/
def made (assignments : List Assignment) : Meta :=
  assignments.foldl (fun m assignment => m.holding assignment.1 assignment.2) empty

/-- The last value that an attribute is set to: it is given none afterwards. -/
def LastSet (assignments : List Assignment) (which : Attribute) (value : AttributeValue) : Prop :=
  ∃ before behind, assignments = before ++ (which, some value) :: behind ∧
    ∀ later, (which, some later) ∉ behind

/-- An attribute that is given no value. -/
def NeverSet (assignments : List Assignment) (which : Attribute) : Prop :=
  ∀ value, (which, some value) ∉ assignments

/-- The value that an assignment gives an attribute. -/
def given (which : Attribute) (assignment : Assignment) : Option AttributeValue :=
  if assignment.1 = which then assignment.2 else none

theorem given_eq_some {assignment : Assignment} :
    given which assignment = some value ↔ assignment = (which, some value) := by
  obtain ⟨other, value?⟩ := assignment
  unfold given
  split
  · rename_i h
    simp only at h
    subst h
    simp
  · rename_i h
    simp [h]

theorem given_eq_none {assignment : Assignment} :
    given which assignment = none ↔ ∀ value, assignment ≠ (which, some value) := by
  rw [Option.eq_none_iff_forall_ne_some]
  exact forall_congr' fun _ => not_congr given_eq_some

/-- To set an attribute shows at that attribute only, and there only if there is a value. -/
theorem read_holding (m : Meta) (assignment : Assignment) (which : Attribute) :
    (m.holding assignment.1 assignment.2).read which =
      (given which assignment).or (m.read which) := by
  obtain ⟨other, _ | value⟩ := assignment
  · simp [given, holding]
  · cases other <;> cases which <;> rfl

/-- What is read is what a search from the last assignment backwards finds first. -/
theorem read_made (assignments : List Assignment) (which : Attribute) :
    (made assignments).read which = assignments.reverse.findSome? (given which) := by
  induction assignments using List.reverseRecOn with
  | nil => cases which <;> rfl
  | append_singleton assignments assignment ih =>
    unfold made at ih ⊢
    rw [List.foldl_concat, read_holding, ih, List.reverse_concat, List.findSome?_cons]
    cases given which assignment <;> rfl

theorem read_made_eq_some :
    (made assignments).read which = some value ↔ LastSet assignments which value := by
  rw [read_made, List.findSome?_eq_some_iff]
  constructor
  · rintro ⟨behind, assignment, before, hall, hvalue, hnone⟩
    refine ⟨before.reverse, behind.reverse, ?_, fun later hlater => ?_⟩
    · rw [← assignments.reverse_reverse, hall, given_eq_some.mp hvalue]
      simp
    · exact given_eq_none.mp (hnone _ (List.mem_reverse.mp hlater)) later rfl
  · rintro ⟨before, behind, rfl, hnone⟩
    refine ⟨behind.reverse, (which, some value), before.reverse, by simp, given_eq_some.mpr rfl, ?_⟩
    rintro assignment hmem
    apply given_eq_none.mpr
    rintro later rfl
    exact hnone later (List.mem_reverse.mp hmem)

theorem read_made_eq_none :
    (made assignments).read which = none ↔ NeverSet assignments which := by
  rw [read_made, List.findSome?_eq_none_iff]
  simp only [List.mem_reverse, given_eq_none]
  exact ⟨fun h value hmem => h _ hmem value rfl, fun h _ hmem value he => h value (he ▸ hmem)⟩

theorem size_eq_some {n : ℕ} : m.size = some n ↔ m.read .size = some (.bytes n) := by
  unfold size
  rcases m.read .size with _ | _ | _ <;> simp

theorem time_eq_some {t : Time} : m.time which = some t ↔ m.read which = some (.time t) := by
  unfold time
  rcases m.read which with _ | _ | _ <;> simp

end Meta

/-! ## Figures of instants -/

/-- The figure of an instant: the whole milliseconds since the epoch, if it is not before the epoch
and the figure has no more than 64 bits. -/
structure Time.ShownAs (t : Time) (n : ℕ) : Prop where
  since : 0 ≤ t.nanos
  floor : (n : ℤ) = ⌊(t.nanos : ℚ) / 1000000⌋
  fits : n < 2 ^ 64

variable {t u : Time} {n n' : ℕ}

theorem Time.floor_eq (t : Time) : ⌊(t.nanos : ℚ) / 1000000⌋ = t.nanos / 1000000 := by
  exact_mod_cast Rat.floor_intCast_div_natCast t.nanos 1000000

/-- A later instant has no smaller figure. -/
theorem Time.ShownAs.mono (h : t.ShownAs n) (hu : u.ShownAs n') (hle : t.nanos ≤ u.nanos) :
    n ≤ n' := by
  have hfloor := h.floor
  have hfloor' := hu.floor
  rw [Time.floor_eq] at hfloor hfloor'
  omega

namespace Report

open Meta (LastSet NeverSet Assignment made)

theorem millis_eq_some : millis t = some n ↔ t.ShownAs n := by
  have hfits : Nat.pow 2 64 = 2 ^ 64 := rfl
  unfold millis
  simp only [hfits]
  split
  · rename_i h
    rw [Option.some.injEq]
    constructor
    · rintro rfl
      refine ⟨h.1, ?_, h.2⟩
      rw [Time.floor_eq]
      omega
    · intro hshown
      have hfloor := hshown.floor
      rw [Time.floor_eq] at hfloor
      omega
  · rename_i h
    refine ⟨nofun, fun hshown => absurd ⟨hshown.since, ?_⟩ h⟩
    have hfloor := hshown.floor
    have hbound := hshown.fits
    rw [Time.floor_eq] at hfloor
    omega

/-- An instant is not shown before the epoch, and not from the first millisecond on that needs more
than 64 bits. -/
theorem millis_eq_none :
    millis t = none ↔ t.nanos < 0 ∨ 2 ^ 64 ≤ ⌊(t.nanos : ℚ) / 1000000⌋ := by
  have hfits : Nat.pow 2 64 = 2 ^ 64 := rfl
  unfold millis
  simp only [hfits, Time.floor_eq]
  split
  · rename_i h
    simp only [reduceCtorEq, false_iff]
    omega
  · rename_i h
    simp only [true_iff]
    omega

/-! ## Reports -/

variable {assignments : List Assignment}

/-- The figure of an attribute, if it is shown. -/
def figure (r : Report) : Attribute → Option ℕ
  | .size => r.size
  | .created => r.created
  | .modified => r.modified
  | .accessed => r.accessed

/-- The field that shows an attribute. -/
def fieldName : Attribute → String
  | .size => "size"
  | .created => "created"
  | .modified => "modified"
  | .accessed => "accessed"

/-- A figure is written as a number, and one that is not there as null. -/
def written : Option ℕ → Json
  | some n => .number (.natural n)
  | none => .null

theorem field?_fields (r : Report) (which : Attribute) :
    Json.field? r.fields (fieldName which) = some (written (r.figure which)) := by
  obtain ⟨key, size, created, modified, accessed⟩ := r
  cases which with
  | size => cases size <;> rfl
  | created => cases created <;> rfl
  | modified => cases modified <;> rfl
  | accessed => cases accessed <;> rfl

/-- A report on attributes that were set by some assignments: for every figure, when it is shown
and when not. -/
structure ShowsLastSet (r : Report) (key : Key) (assignments : List Assignment) : Prop where
  key : r.key = key.text
  written : ∀ which, Json.field? r.fields (fieldName which) = some (written (r.figure which))
  size : ∀ n, r.size = some n ↔ LastSet assignments .size (.bytes n)
  noSize : r.size = none ↔
    NeverSet assignments .size ∨ ∃ t, LastSet assignments .size (.time t)
  time : ∀ which, which ≠ .size → ∀ n, r.figure which = some n ↔
    ∃ t, LastSet assignments which (.time t) ∧ t.ShownAs n
  noTime : ∀ which, which ≠ .size → (r.figure which = none ↔
    NeverSet assignments which ∨ (∃ n, LastSet assignments which (.bytes n)) ∨
      ∃ t, LastSet assignments which (.time t) ∧
        (t.nanos < 0 ∨ 2 ^ 64 ≤ ⌊(t.nanos : ℚ) / 1000000⌋))

/-- The figures of times are all made in one way. -/
theorem figure_of {which : Attribute} (hwhich : which ≠ .size) (key : Key) (m : Meta) :
    (of key m).figure which = (m.time which).bind millis := by
  cases which with
  | size => exact absurd rfl hwhich
  | created | modified | accessed => rfl

theorem showsLastSet (key : Key) (assignments : List Assignment) :
    (of key (made assignments)).ShowsLastSet key assignments where
  key := rfl
  written := field?_fields _
  size n := Meta.size_eq_some.trans Meta.read_made_eq_some
  noSize := by
    show (made assignments).size = none ↔ _
    simp only [← Meta.read_made_eq_some, ← Meta.read_made_eq_none]
    unfold Meta.size
    rcases (made assignments).read .size with _ | _ | _ <;> simp
  time which hwhich n := by
    rw [figure_of hwhich, Option.bind_eq_some_iff]
    simp only [Meta.time_eq_some, Meta.read_made_eq_some, millis_eq_some]
  noTime which hwhich := by
    rw [figure_of hwhich]
    simp only [← Meta.read_made_eq_some, ← Meta.read_made_eq_none, ← millis_eq_none]
    unfold Meta.time
    rcases (made assignments).read which with _ | _ | _ <;> simp

/-- **Reports are exact.** However attributes were set, a report shows as the size the last value
that it was given if that is a number of bytes, and of every time the last value if that is an
instant not before the epoch whose whole milliseconds fit in 64 bits; all else is not shown. So of
two times that are shown, on any reports, the earlier one has no larger figure. -/
theorem tells_exactly (key : Key) (assignments : List Assignment) :
    (of key (made assignments)).ShowsLastSet key assignments ∧
      ∀ (other : Key) (others : List Assignment) (which which' : Attribute) (t u : Time) (n n' : ℕ),
        which ≠ .size → which' ≠ .size →
        LastSet assignments which (.time t) → LastSet others which' (.time u) →
        (of key (made assignments)).figure which = some n →
        (of other (made others)).figure which' = some n' →
        t.nanos ≤ u.nanos → n ≤ n' := by
  refine ⟨showsLastSet key assignments, ?_⟩
  intro other others which which' t u n n' hwhich hwhich' ht hu hn hn' hle
  obtain ⟨t', ht', hshown⟩ := ((showsLastSet key assignments).time which hwhich n).mp hn
  obtain ⟨u', hu', hshown'⟩ := ((showsLastSet other others).time which' hwhich' n').mp hn'
  rw [← Meta.read_made_eq_some] at ht ht' hu hu'
  obtain rfl : t' = t := by simpa using ht'.symm.trans ht
  obtain rfl : u' = u := by simpa using hu'.symm.trans hu
  exact hshown.mono hshown' hle

/-- Values of the wrong kind that are replaced, a size that is left alone, and instants at the ends:
the last that is shown, and the last before the epoch. -/
def edges : List Assignment :=
  [(.size, some (.time ⟨5⟩)), (.size, some (.bytes 7)), (.size, none), (.created, some (.bytes 1)),
    (.created, some (.time ⟨1999999⟩)), (.modified, some (.time ⟨18446744073709551615999999⟩)),
    (.accessed, some (.time ⟨0⟩)), (.accessed, some (.time ⟨-1⟩))]

theorem tells_exactly_at_edges :
    LastSet edges .created (.time ⟨1999999⟩) ∧
      LastSet edges .modified (.time ⟨18446744073709551615999999⟩) ∧
      (of Key.root (made edges)).size = some 7 ∧
      (of Key.root (made edges)).figure .created = some 1 ∧
      (of Key.root (made edges)).figure .modified = some 18446744073709551615 ∧
      (of Key.root (made edges)).figure .accessed = none ∧ 1 ≤ 18446744073709551615 := by
  have hcreated : LastSet edges .created (.time ⟨1999999⟩) := Meta.read_made_eq_some.mp rfl
  have hmodified : LastSet edges .modified (.time ⟨18446744073709551615999999⟩) :=
    Meta.read_made_eq_some.mp rfl
  have haccessed : LastSet edges .accessed (.time ⟨-1⟩) := Meta.read_made_eq_some.mp rfl
  obtain ⟨htells, hmono⟩ := tells_exactly Key.root edges
  have hfirst : (of Key.root (made edges)).figure .created = some 1 :=
    (htells.time .created (by decide) 1).mpr ⟨_, hcreated, millis_eq_some.mp (by decide)⟩
  have hlast : (of Key.root (made edges)).figure .modified = some 18446744073709551615 :=
    (htells.time .modified (by decide) _).mpr ⟨_, hmodified, millis_eq_some.mp (by decide)⟩
  have hnone : (of Key.root (made edges)).figure .accessed = none :=
    (htells.noTime .accessed (by decide)).mpr (Or.inr (Or.inr ⟨_, haccessed, Or.inl (by decide)⟩))
  refine ⟨hcreated, hmodified, (htells.size 7).mpr (Meta.read_made_eq_some.mp rfl), hfirst, hlast,
    hnone, ?_⟩
  exact hmono Key.root edges .created .modified _ _ _ _ (by decide) (by decide) hcreated hmodified
    hfirst hlast (by decide)

end Report

end BlobStore
