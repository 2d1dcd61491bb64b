import BlobStore.Proofs.Order
import Mathlib.Data.List.Basic
import Mathlib.Logic.Function.Iterate

/-!
# The algebra of exclusions

A segment is excluded from a key where it first stands, where it last stands, or everywhere. Three
searches find the places: one from the front, one from the back with its index counted from the
end, and a filter. They belong together all the same: the last place is the first one of the key
that is read backwards, and to exclude everywhere is to exclude once for every place. Exclusions of
different segments do not disturb each other.

## Main definitions

* `Key.reversed`: a key read backwards
* `Key.Exclusion`, `Key.exclude`: the three exclusions
* `Key.Drops`: a key without one place of a segment

## Main results

* `Key.segments_excludeFirst`, `Key.segments_excludeLast`: what the searches find
* `Key.iterate_eq_excludeAll`: one exclusion for every place
* `Key.exclude_comm`: exclusions of different segments commute
* `Key.exclusion_algebra`: all of it for one key
-/

namespace BlobStore

namespace Key

variable {k : Key} {segment other : String} {segments : List String} {index : ℕ}

/-- The key with its segments in the opposite order. -/
def reversed (k : Key) : Key := ⟨k.segments.reverse⟩

@[simp] theorem reversed_reversed (k : Key) : k.reversed.reversed = k :=
  ext_segments k.segments.reverse_reverse

/-- Which places of a segment are excluded. -/
inductive Exclusion
  | first
  | last
  | all
deriving DecidableEq, Repr

/-- The key with a segment excluded at such places. -/
def exclude (k : Key) (places : Exclusion) (segment : String) : Key :=
  match places with
  | .first => k.excludeFirst segment
  | .last => k.excludeLast segment
  | .all => k.excludeAll segment

/-! ## What the searches find -/

theorem segments_excludeAll (k : Key) (segment : String) :
    (k.excludeAll segment).segments = k.segments.filter (· != segment) := rfl

/-- The search from the front ends at the place where an element is erased. -/
theorem segments_excludeFirst (k : Key) (segment : String) :
    (k.excludeFirst segment).segments = k.segments.erase segment := by
  have hfind : k.segments.idxOf? segment = k.segments.findIdx? (· == segment) := rfl
  rw [List.erase_eq_eraseIdx, hfind]
  unfold excludeFirst
  cases k.segments.findIdx? (· == segment) with
  | none => rfl
  | some index => rfl

/-- An index counted from the back is the one counted from the front of the reversed list. -/
theorem eraseIdx_from_back (h : index < segments.length) :
    segments.eraseIdx (segments.length - 1 - index) =
      (segments.reverse.eraseIdx index).reverse := by
  have hback : segments.length - 1 - index = segments.length - (index + 1) := by omega
  have hnext : segments.length - 1 - index + 1 = segments.length - index := by omega
  rw [List.eraseIdx_eq_take_drop_succ, List.eraseIdx_eq_take_drop_succ, List.reverse_append,
    List.drop_reverse, List.take_reverse, List.reverse_reverse, List.reverse_reverse, hnext, hback]

/-- The search from the back is the one from the front, backwards. -/
theorem excludeLast_eq_reversed (k : Key) (segment : String) :
    k.excludeLast segment = (k.reversed.excludeFirst segment).reversed := by
  have hsegments : k.reversed.segments = k.segments.reverse := rfl
  apply ext_segments
  unfold excludeLast excludeFirst
  rw [hsegments]
  cases hfound : k.segments.reverse.findIdx? (· == segment) with
  | none => exact k.segments.reverse_reverse.symm
  | some index =>
    obtain ⟨hlt, -⟩ := List.findIdx?_eq_some_iff_getElem.mp hfound
    rw [List.length_reverse] at hlt
    exact eraseIdx_from_back hlt

theorem segments_excludeLast (k : Key) (segment : String) :
    (k.excludeLast segment).segments = (k.segments.reverse.erase segment).reverse := by
  rw [excludeLast_eq_reversed]
  exact congrArg List.reverse (segments_excludeFirst k.reversed segment)

/-! ## One place -/

/-- A key without one place of a segment: what stands before that place and behind it is kept. -/
structure Drops (segment : String) (before behind : List String) (k after : Key) : Prop where
  whole : k.segments = before ++ segment :: behind
  rest : after.segments = before ++ behind

namespace Drops

variable {before behind : List String} {after : Key}

theorem length (h : Drops segment before behind k after) :
    after.segments.length + 1 = k.segments.length := by
  rw [h.rest, h.whole, List.length_append, List.length_append, List.length_cons]
  omega

theorem count (h : Drops segment before behind k after) :
    after.segments.count segment + 1 = k.segments.count segment := by
  rw [h.rest, h.whole, List.count_append, List.count_append, List.count_cons_self]
  omega

theorem reversed (h : Drops segment before behind k after) :
    Drops segment behind.reverse before.reverse k.reversed after.reversed where
  whole := by simp [Key.reversed, h.whole]
  rest := by simp [Key.reversed, h.rest]

end Drops

theorem excludeFirst_drops (h : segment ∈ k.segments) :
    ∃ before behind, segment ∉ before ∧
      Drops segment before behind k (k.excludeFirst segment) := by
  obtain ⟨before, behind, hnot, hwhole, hrest⟩ := List.exists_erase_eq h
  exact ⟨before, behind, hnot, hwhole, (segments_excludeFirst k segment).trans hrest⟩

theorem excludeLast_drops (h : segment ∈ k.segments) :
    ∃ before behind, segment ∉ behind ∧
      Drops segment before behind k (k.excludeLast segment) := by
  have hback : segment ∈ k.reversed.segments := List.mem_reverse.mpr h
  obtain ⟨behind, before, hnot, hdrops⟩ := excludeFirst_drops hback
  have hdrops' := hdrops.reversed
  rw [reversed_reversed, ← excludeLast_eq_reversed] at hdrops'
  exact ⟨before.reverse, behind.reverse, fun hin => hnot (List.mem_reverse.mp hin), hdrops'⟩

theorem excludeFirst_of_not_mem (h : segment ∉ k.segments) : k.excludeFirst segment = k := by
  apply ext_segments
  rw [segments_excludeFirst]
  exact List.erase_of_not_mem h

theorem excludeLast_of_not_mem (h : segment ∉ k.segments) : k.excludeLast segment = k := by
  have hback : segment ∉ k.reversed.segments := fun hin => h (List.mem_reverse.mp hin)
  rw [excludeLast_eq_reversed, excludeFirst_of_not_mem hback, reversed_reversed]

/-! ## All places -/

theorem excludeAll_excludeFirst (k : Key) (segment other : String) :
    (k.excludeFirst other).excludeAll segment = (k.excludeAll segment).excludeFirst other := by
  apply ext_segments
  rw [segments_excludeAll, segments_excludeFirst, segments_excludeFirst, segments_excludeAll]
  exact List.erase_filter.symm

theorem excludeAll_excludeLast (k : Key) (segment other : String) :
    (k.excludeLast other).excludeAll segment = (k.excludeAll segment).excludeLast other := by
  apply ext_segments
  rw [segments_excludeAll, segments_excludeLast, segments_excludeLast, segments_excludeAll,
    List.filter_reverse, ← List.erase_filter, ← List.filter_reverse]

theorem not_mem_excludeAll (k : Key) (segment : String) :
    segment ∉ (k.excludeAll segment).segments := by
  simp [segments_excludeAll]

theorem excludeAll_of_not_mem (h : segment ∉ k.segments) : k.excludeAll segment = k := by
  apply ext_segments
  rw [segments_excludeAll, List.filter_eq_self]
  intro x hx
  exact bne_iff_ne.mpr (ne_of_mem_of_not_mem hx h)

/-- A step that excludes one place, whichever, comes to the exclusion of all places when it is taken
once for each of them. -/
theorem iterate_eq_excludeAll {step : Key → Key}
    (hone : ∀ k : Key, segment ∈ k.segments →
      (step k).segments.count segment + 1 = k.segments.count segment)
    (hall : ∀ k : Key, (step k).excludeAll segment = k.excludeAll segment) (k : Key) :
    step^[k.segments.count segment] k = k.excludeAll segment := by
  -- on the number of places
  generalize hn : k.segments.count segment = n
  induction n generalizing k with
  | zero => exact (excludeAll_of_not_mem (List.count_eq_zero.mp hn)).symm
  | succ n ih =>
    have hmem : segment ∈ k.segments := List.count_pos_iff.mp (by omega)
    have hless := hone k hmem
    rw [Function.iterate_succ_apply, ih (step k) (by omega), hall k]

theorem iterate_excludeFirst (k : Key) (segment : String) :
    (·.excludeFirst segment)^[k.segments.count segment] k = k.excludeAll segment := by
  apply iterate_eq_excludeAll
  · intro k hmem
    obtain ⟨before, behind, -, hdrops⟩ := excludeFirst_drops hmem
    exact hdrops.count
  · intro k
    rw [excludeAll_excludeFirst, excludeFirst_of_not_mem (not_mem_excludeAll k segment)]

theorem iterate_excludeLast (k : Key) (segment : String) :
    (·.excludeLast segment)^[k.segments.count segment] k = k.excludeAll segment := by
  apply iterate_eq_excludeAll
  · intro k hmem
    obtain ⟨before, behind, -, hdrops⟩ := excludeLast_drops hmem
    exact hdrops.count
  · intro k
    rw [excludeAll_excludeLast, excludeLast_of_not_mem (not_mem_excludeAll k segment)]

/-! ## Different segments -/

/-- Whether the last place is in the rest of a list or is its head. -/
theorem reverse_erase_cons (x : String) (rest : List String) (segment : String) :
    ((x :: rest).reverse.erase segment).reverse =
      if segment ∈ rest then x :: (rest.reverse.erase segment).reverse
      else (x :: rest).erase segment := by
  rw [List.reverse_cons, List.erase_append]
  simp only [List.mem_reverse]
  split
  · simp
  · rename_i hnot
    rw [List.erase_cons, List.erase_cons, List.erase_of_not_mem hnot]
    split <;> simp

/-- The first place of a segment and the last place of another one do not move each other. -/
theorem excludeFirst_excludeLast_comm (hne : segment ≠ other) (k : Key) :
    (k.excludeFirst segment).excludeLast other = (k.excludeLast other).excludeFirst segment := by
  apply ext_segments
  rw [segments_excludeLast, segments_excludeFirst, segments_excludeFirst, segments_excludeLast]
  induction k.segments with
  | nil => rfl
  | cons x rest ih =>
    have hmem : other ∈ rest.erase segment ↔ other ∈ rest := List.mem_erase_of_ne hne.symm
    rw [reverse_erase_cons]
    by_cases hx : x = segment
    · subst hx
      rw [List.erase_cons_head]
      by_cases hin : other ∈ rest
      · rw [if_pos hin, List.erase_cons_head]
      · have hnot : other ∉ rest.reverse := fun h => hin (List.mem_reverse.mp h)
        rw [if_neg hin, List.erase_cons_tail (by simpa using hne), List.erase_of_not_mem hin,
          List.erase_cons_head, List.erase_of_not_mem hnot, List.reverse_reverse]
    · rw [List.erase_cons_tail (by simpa using hx), reverse_erase_cons, if_congr hmem rfl rfl]
      split
      · rw [ih, List.erase_cons_tail (by simpa using hx)]
      · rw [← List.erase_cons_tail (by simpa using hx), List.erase_comm]

theorem excludeLast_comm (k : Key) (segment other : String) :
    (k.excludeLast segment).excludeLast other = (k.excludeLast other).excludeLast segment := by
  apply ext_segments
  simp only [segments_excludeLast, List.reverse_reverse]
  rw [List.erase_comm]

theorem excludeFirst_comm (k : Key) (segment other : String) :
    (k.excludeFirst segment).excludeFirst other = (k.excludeFirst other).excludeFirst segment := by
  apply ext_segments
  simp only [segments_excludeFirst]
  exact List.erase_comm segment other

theorem excludeAll_comm (k : Key) (segment other : String) :
    (k.excludeAll segment).excludeAll other = (k.excludeAll other).excludeAll segment :=
  ext_segments (List.filter_comm _ _ k.segments)

/-- Exclusions of different segments commute, whichever places they exclude. -/
theorem exclude_comm (hne : segment ≠ other) (places others : Exclusion) (k : Key) :
    (k.exclude places segment).exclude others other =
      (k.exclude others other).exclude places segment := by
  cases places with
  | first =>
    cases others with
    | first => exact excludeFirst_comm k segment other
    | last => exact excludeFirst_excludeLast_comm hne k
    | all => exact excludeAll_excludeFirst k other segment
  | last =>
    cases others with
    | first => exact (excludeFirst_excludeLast_comm hne.symm k).symm
    | last => exact excludeLast_comm k segment other
    | all => exact excludeAll_excludeLast k other segment
  | all =>
    cases others with
    | first => exact (excludeAll_excludeFirst k segment other).symm
    | last => exact (excludeAll_excludeLast k segment other).symm
    | all => exact excludeAll_comm k segment other

/-- **The algebra of exclusions.** Of every key and segment: the exclusion of the last place is that
of the first place of the reversed key. The exclusion of all places is that of the first one, or of
the last one, taken once for each place, and a second one changes nothing. Where the segment stands,
the exclusion of its first or last place drops that place and keeps the others; elsewhere both
change nothing. Exclusions of different segments commute. -/
theorem exclusion_algebra (k : Key) (segment : String) :
    k.excludeLast segment = (k.reversed.excludeFirst segment).reversed ∧
      (·.excludeFirst segment)^[k.segments.count segment] k = k.excludeAll segment ∧
      (·.excludeLast segment)^[k.segments.count segment] k = k.excludeAll segment ∧
      (k.excludeAll segment).excludeAll segment = k.excludeAll segment ∧
      (segment ∈ k.segments →
        (∃ before behind, segment ∉ before ∧
          Drops segment before behind k (k.excludeFirst segment)) ∧
        (∃ before behind, segment ∉ behind ∧
          Drops segment before behind k (k.excludeLast segment)) ∧
        (k.excludeFirst segment).segments.length + 1 = k.segments.length ∧
        (k.excludeLast segment).segments.length + 1 = k.segments.length) ∧
      (segment ∉ k.segments → k.excludeFirst segment = k ∧ k.excludeLast segment = k) ∧
      ∀ other, segment ≠ other → ∀ places others : Exclusion,
        (k.exclude places segment).exclude others other =
          (k.exclude others other).exclude places segment := by
  refine ⟨excludeLast_eq_reversed k segment, iterate_excludeFirst k segment,
    iterate_excludeLast k segment, excludeAll_of_not_mem (not_mem_excludeAll k segment), ?_, ?_,
    fun other hne places others => exclude_comm hne places others k⟩
  · intro hmem
    obtain ⟨before, behind, hbefore, hfirst⟩ := excludeFirst_drops hmem
    obtain ⟨before', behind', hbehind, hlast⟩ := excludeLast_drops hmem
    exact ⟨⟨before, behind, hbefore, hfirst⟩, ⟨before', behind', hbehind, hlast⟩, hfirst.length,
      hlast.length⟩
  · exact fun hnot => ⟨excludeFirst_of_not_mem hnot, excludeLast_of_not_mem hnot⟩

/-- A segment at both ends and twice in a row, and one that stands between its places. -/
def repeated : Key := ⟨["1", "2", "1", "1", "3", "1"]⟩

theorem exclusion_algebra_repeated :
    "1" ∈ repeated.segments ∧ "4" ∉ repeated.segments ∧ "1" ≠ "2" ∧
      (repeated.excludeFirst "1").segments.length + 1 = 6 ∧
      repeated.excludeLast "4" = repeated ∧
      (·.excludeLast "1")^[4] repeated = ⟨["2", "3"]⟩ ∧
      (repeated.excludeLast "1").excludeFirst "2" = ⟨["1", "1", "1", "3"]⟩ := by
  have hmem : "1" ∈ repeated.segments := by decide
  have hnot : "4" ∉ repeated.segments := by decide
  have hne : "1" ≠ "2" := by decide
  obtain ⟨-, -, hlast, -, hdrops, -, hcomm⟩ := exclusion_algebra repeated "1"
  obtain ⟨-, -, -, -, -, habsent, -⟩ := exclusion_algebra repeated "4"
  refine ⟨hmem, hnot, hne, (hdrops hmem).2.2.1, (habsent hnot).2, ?_, ?_⟩
  · exact hlast.trans (by decide)
  · exact (hcomm "2" hne .last .first).trans (by decide)

end Key

end BlobStore
