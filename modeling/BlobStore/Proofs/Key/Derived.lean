import BlobStore.Proofs.Key
import Mathlib.Data.List.Induction

/-!
# Keys derived from texts

A key that comes of texts keeps delimiters out of its segments, whatever is done to it, so it is
read back from its text. The key of one empty segment is the exception: no text is read as it, but
it is the child of the root by the empty segment and the parent of the key of `/`, and its text is
that of the root.

## Main definitions

* `Key.Derived`: the keys that come of texts by the operations on keys

## Main results

* `Key.derived_iff_plain`: they are the keys without delimiters in their segments
* `Key.Derived.eq_of_text_eq`: two of them with one text are equal, the root and `[""]` apart
* `Key.reads_back`: texts are the texts of the keys they are read as, and derived keys are read
  back from their texts
-/

namespace BlobStore

namespace Key

variable {k other scope up rest : Key} {segment : String}

/-! ## Operations that keep delimiters out -/

/-- Segments that are all among those of a plain key make a plain key. -/
theorem Plain.of_subset (h : k.Plain) (hs : other.segments ⊆ k.segments) : other.Plain :=
  fun _ hmem => h _ (hs hmem)

theorem Plain.child (h : k.Plain) (hs : delimiter ∉ segment.toList) : (k.child segment).Plain := by
  intro piece hmem
  rcases List.mem_append.mp hmem with hmem | hmem
  · exact h piece hmem
  · obtain rfl := List.mem_singleton.mp hmem
    exact hs

theorem Plain.join (h : k.Plain) (ho : other.Plain) : (k.join other).Plain := by
  intro piece hmem
  rcases List.mem_append.mp hmem with hmem | hmem
  · exact h piece hmem
  · exact ho piece hmem

theorem Plain.parent (h : k.Plain) (hp : k.parent? = some up) : up.Plain := by
  unfold parent? at hp
  split at hp
  · cases hp
  · cases hp
    exact h.of_subset (List.dropLast_subset k.segments)

theorem Plain.strip (h : k.Plain) (hr : k.stripStart? scope = some rest) : rest.Plain := by
  obtain rfl := stripStart?_eq_some.mp hr
  exact h.of_subset (List.subset_append_right scope.segments rest.segments)

theorem Plain.excludeAt (h : k.Plain) (index : Nat) : (k.excludeAt index).Plain :=
  h.of_subset fun _ => List.mem_of_mem_eraseIdx

theorem Plain.excludeFirst (h : k.Plain) (segment : String) : (k.excludeFirst segment).Plain := by
  unfold Key.excludeFirst
  split
  · exact h.excludeAt _
  · exact h

theorem Plain.excludeLast (h : k.Plain) (segment : String) : (k.excludeLast segment).Plain := by
  unfold Key.excludeLast
  split
  · exact h.excludeAt _
  · exact h

theorem Plain.excludeAll (h : k.Plain) (segment : String) : (k.excludeAll segment).Plain :=
  h.of_subset (List.filter_subset_self k.segments)

/-! ## Derived keys -/

/-- The keys that come of texts: a text that was read, and what the operations on keys make of such
keys and of segments without delimiters. What is excluded may be any text. -/
inductive Derived : Key → Prop
  | parse (text : String) : Derived (Key.parse text)
  | child {k : Key} {segment : String} (h : Derived k) (hs : delimiter ∉ segment.toList) :
    Derived (k.child segment)
  | join {k other : Key} (h : Derived k) (ho : Derived other) : Derived (k.join other)
  | parent {k up : Key} (h : Derived k) (hp : k.parent? = some up) : Derived up
  | strip {k scope rest : Key} (h : Derived k) (hr : k.stripStart? scope = some rest) :
    Derived rest
  | excludeAt {k : Key} (h : Derived k) (index : Nat) : Derived (k.excludeAt index)
  | excludeFirst {k : Key} (h : Derived k) (segment : String) : Derived (k.excludeFirst segment)
  | excludeLast {k : Key} (h : Derived k) (segment : String) : Derived (k.excludeLast segment)
  | excludeAll {k : Key} (h : Derived k) (segment : String) : Derived (k.excludeAll segment)

theorem Derived.plain (h : Derived k) : k.Plain := by
  induction h with
  | parse text => exact plain_parse text
  | child _ hs ih => exact ih.child hs
  | join _ _ ih iho => exact ih.join iho
  | parent _ hp ih => exact ih.parent hp
  | strip _ hr ih => exact ih.strip hr
  | excludeAt _ index ih => exact ih.excludeAt index
  | excludeFirst _ segment ih => exact ih.excludeFirst segment
  | excludeLast _ segment ih => exact ih.excludeLast segment
  | excludeAll _ segment ih => exact ih.excludeAll segment

/-- A plain key comes of the empty text, by one child for each of its segments. -/
theorem derived_of_plain (h : k.Plain) : Derived k := by
  obtain ⟨segments⟩ := k
  induction segments using List.reverseRecOn with
  | nil => exact Derived.parse ""
  | append_singleton segments segment ih =>
    have hinit : Derived ⟨segments⟩ := ih (h.of_subset (List.subset_append_left segments [segment]))
    have hlast : delimiter ∉ segment.toList :=
      h segment (List.mem_append_right segments (List.mem_singleton_self segment))
    exact hinit.child hlast

/-- The keys that come of texts are those without delimiters in their segments. -/
theorem derived_iff_plain : Derived k ↔ k.Plain := ⟨Derived.plain, derived_of_plain⟩

/-! ## Reading back -/

/-- A plain key is read back from its text; the key of one empty segment is read as the root. -/
theorem Plain.parse_text (h : k.Plain) : parse k.text = if k = ⟨[""]⟩ then root else k := by
  split
  case isTrue he => rw [he]; rfl
  case isFalse he =>
    by_cases hr : k = root
    · rw [hr]; rfl
    · exact Key.parse_text h hr he

/-- Derived keys with one text are equal, unless they are the root and the key of one empty
segment. -/
theorem Derived.eq_of_text_eq (h : Derived k) (ho : Derived other) (ht : k.text = other.text)
    (hk : k ≠ ⟨[""]⟩) (hother : other ≠ ⟨[""]⟩) : k = other := by
  have hread : Key.parse k.text = Key.parse other.text := congrArg Key.parse ht
  rwa [h.plain.parse_text, if_neg hk, ho.plain.parse_text, if_neg hother] at hread

/-- Every text is the text of the key it is read as, and every derived key is read back from its
text: the key of one empty segment as the root, every other one as itself. -/
theorem reads_back (text : String) (k : Key) (h : Derived k) :
    (parse text).text = text ∧ parse k.text = if k = ⟨[""]⟩ then root else k :=
  ⟨text_parse text, h.plain.parse_text⟩

/-- Empty segments in front, in the middle and behind are read back. -/
theorem reads_back_of_empty_segments :
    Derived ((((parse "a//b").join (parse "/x/")).child "").excludeAll "a") ∧
      ((((parse "a//b").join (parse "/x/")).child "").excludeAll "a").segments =
        ["", "b", "", "x", "", ""] ∧
      (parse "a//b").text = "a//b" ∧
      parse ((((parse "a//b").join (parse "/x/")).child "").excludeAll "a").text =
        (((parse "a//b").join (parse "/x/")).child "").excludeAll "a" := by
  have hjoin : Derived ((parse "a//b").join (parse "/x/")) :=
    (Derived.parse "a//b").join (Derived.parse "/x/")
  have hderived : Derived ((((parse "a//b").join (parse "/x/")).child "").excludeAll "a") :=
    (hjoin.child (by decide)).excludeAll "a"
  obtain ⟨htext, hread⟩ := reads_back "a//b" _ hderived
  refine ⟨hderived, by decide, htext, ?_⟩
  rw [hread]
  decide

/-- The child of the root by the empty segment is not read back. -/
theorem child_not_read_back :
    Derived ((parse "").child "") ∧ parse ((parse "").child "").text ≠ (parse "").child "" :=
  ⟨(Derived.parse "").child (by decide), by decide⟩

end Key

end BlobStore
