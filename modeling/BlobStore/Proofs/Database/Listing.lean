import BlobStore.Proofs.Database.Agreement

/-!
# What a database lists

A listing reads the keys back from the texts of the rows that it selects. Distinct texts are read
back as distinct keys, so every row is shown once, and the keys stand in their order. Two keys share
the empty text, the root and the key of one empty segment. Its row is selected for the root only,
and is read back as the root: that is the one case in which a listing shows its own scope.

## Main definitions

* `Database.nested`: the keys that a listing shows
* `Database.Listable`: keys under which a listing is not refused
* `Database.Lists`: a listing of what is stored, as far as it is exact

## Main results

* `Database.mem_nested_of_ne_root`, `Database.mem_nested_root`: the keys in a listing
* `Database.lists_after`: what is listed after any run
* `Database.lists_root_itself`: a listing of the root that shows the root
-/

namespace BlobStore

namespace Database

variable {d : Database} {scope k : Key}

/-! ## One listing -/

/-- The keys that a listing shows. -/
def nested (scope : Key) (d : Database) : List Key := Key.sort ((d.select scope).map Key.parse)

theorem nested_pairwise (h : d.rows.Sorted) (scope : Key) :
    (d.nested scope).Pairwise (· < ·) :=
  Key.sort_pairwise_lt ((select_nodup h scope).map Key.parse_injective)

theorem mem_nested : k ∈ d.nested scope ↔ ∃ text ∈ d.select scope, Key.parse text = k := by
  unfold nested
  rw [(Key.sort_perm _).mem_iff, List.mem_map]

theorem textual_of_under (hk : k.Plain) (hr : scope ≠ Key.root) (h : k.Under scope) :
    k.Textual := by
  obtain ⟨rest, hrest, hsegments⟩ := Key.under_iff.mp h
  have hscope : scope.segments ≠ [] := fun hn => hr (Key.ext_segments hn)
  have hlength : 2 ≤ k.segments.length := by
    have hs := List.length_pos_iff.mpr hscope
    have hr := List.length_pos_iff.mpr hrest
    rw [hsegments, List.length_append]
    omega
  refine ⟨hk, ?_, ?_⟩
  · rintro rfl
    simp [Key.root] at hlength
  · rintro rfl
    simp at hlength

/-- A listing under a key other than the root shows the stored keys under it. -/
theorem mem_nested_of_ne_root (hs : scope.Plain) (hr : scope ≠ Key.root) :
    k ∈ d.nested scope ↔ k.Plain ∧ (d.contents k).isSome ∧ k.Under scope := by
  rw [mem_nested]
  constructor
  · rintro ⟨text, ht, rfl⟩
    have hk := Key.plain_parse text
    rw [← Key.text_parse text] at ht
    obtain ⟨hrow, hu⟩ := (mem_select_of_ne_root hk hs hr).mp ht
    exact ⟨hk, (mem_keys_iff d _).mp hrow, hu⟩
  · rintro ⟨hk, hstored, hu⟩
    have hrow := (mem_keys_iff d k.text).mpr hstored
    exact ⟨k.text, (mem_select_of_ne_root hk hs hr).mpr ⟨hrow, hu⟩,
      (textual_of_under hk hr hu).parse_text⟩

/-- A listing of the root shows the stored keys other than the key of one empty segment. -/
theorem mem_nested_root :
    k ∈ d.nested Key.root ↔ k.Plain ∧ (d.contents k).isSome ∧ k ≠ ⟨[""]⟩ := by
  rw [mem_nested, select_root]
  constructor
  · rintro ⟨text, ht, rfl⟩
    refine ⟨Key.plain_parse text, ?_, ?_⟩
    · rw [mem_keys_iff, ← Key.text_parse text] at ht
      exact ht
    · exact Key.parse_ne_empty text
  · rintro ⟨hk, hstored, he⟩
    refine ⟨k.text, (mem_keys_iff d k.text).mpr hstored, ?_⟩
    by_cases hr : k = Key.root
    · subst hr
      rfl
    · exact Key.parse_text hk hr he

/-! ## Runs -/

/-- The result of listing `scope`: every stored key under it once, in ascending order. The root is
among them if it is the scope and has a value, and the key of one empty segment is not. -/
def Lists (d : Database) (scope : Key) (result : Except StorageError (List Key)) : Prop :=
  ∃ keys, result = .ok keys ∧ keys.Pairwise (· < ·) ∧
    (∀ k, k ∈ keys ↔ k.Plain ∧ (d.contents k).isSome ∧
      (k.Under scope ∧ k ≠ ⟨[""]⟩ ∨ k = Key.root ∧ scope = Key.root)) ∧
    (scope ≠ Key.root ∨ d.contents Key.root = none →
      ∀ k, k ∈ keys ↔ k.Plain ∧ (d.contents k).isSome ∧ k.Under scope)

theorem under_root : k.Under Key.root ↔ k ≠ Key.root := by
  rw [Key.under_iff]
  constructor
  · rintro ⟨rest, hrest, h⟩ rfl
    exact hrest h.symm
  · intro h
    exact ⟨k.segments, fun hn => h (Key.ext_segments hn), rfl⟩

theorem lists_nested (h : d.rows.Sorted) (hs : scope.Plain) :
    d.Lists scope (.ok (d.nested scope)) := by
  refine ⟨_, rfl, nested_pairwise h scope, ?_, ?_⟩
  · intro k
    by_cases hr : scope = Key.root
    · subst hr
      rw [mem_nested_root, under_root]
      refine and_congr_right fun _ => and_congr_right fun _ => ?_
      by_cases hk : k = Key.root
      · subst hk
        simp [Key.root]
      · simp [hk]
    · rw [mem_nested_of_ne_root hs hr]
      refine and_congr_right fun hk => and_congr_right fun _ => ?_
      constructor
      · intro hu
        exact Or.inl ⟨hu, (textual_of_under hk hr hu).2.2⟩
      · rintro (⟨hu, -⟩ | ⟨-, he⟩)
        · exact hu
        · exact absurd he hr
  · rintro hexcept k
    by_cases hr : scope = Key.root
    · subst hr
      have hnone : d.contents Key.root = none := hexcept.resolve_left fun hn => hn rfl
      rw [mem_nested_root, under_root]
      refine and_congr_right fun _ => and_congr_right fun hstored => ?_
      have hne : k ≠ ⟨[""]⟩ ∧ k ≠ Key.root := by
        constructor
        · rintro rfl
          have he : d.contents ⟨[""]⟩ = d.contents Key.root := rfl
          rw [he, hnone] at hstored
          cases hstored
        · rintro rfl
          rw [hnone] at hstored
          cases hstored
      exact ⟨fun _ => hne.2, fun _ => hne.1⟩
    · exact mem_nested_of_ne_root hs hr

theorem sorted_after (path : String) (clock : Nat → Time) (requests : List Request) :
    ((backend path).after clock requests 0 empty).rows.Sorted :=
  Backend.after_induction (backend path) clock (P := fun _ d => d.rows.Sorted)
    (fun r _ _ now _ h => sorted_answer h r now) OrderedMap.sorted_empty

theorem sorted_after_file (path : String) (f : DatabaseFile) (clock : Nat → Time)
    (requests : List Request) (disk : Disk) :
    ((f.backend path).after clock requests 0 (disk, empty)).2.rows.Sorted := by
  refine Backend.after_induction (f.backend path) clock (P := fun _ s => s.2.rows.Sorted) ?_
    OrderedMap.sorted_empty
  rintro r - - now ⟨disk, d⟩ h
  show (f.answer path r now (disk, d)).2.2.rows.Sorted
  rcases f.answer_cases path r now disk d with ⟨-, hafter⟩ | ⟨e, hsame⟩
  · rw [hafter]
    exact sorted_answer h r now
  · rw [hsame]
    exact h

/-- A key under which a listing is not refused: the bounds of the listing are not too long, or there
are none. -/
def Listable (scope : Key) : Prop := scope = Key.root ∨ scope.text.utf8ByteSize < lengthLimit

instance decidableListable (scope : Key) : Decidable (Listable scope) :=
  inferInstanceAs (Decidable (_ ∨ _))

theorem refusal?_list_eq_none_iff {now : Time} :
    d.refusal? now (.list scope) = none ↔ Listable scope := by
  have hroot : scope.isRoot ↔ scope = Key.root := by
    rw [Key.isRoot, List.isEmpty_iff]
    exact ⟨Key.ext_segments, congrArg Key.segments⟩
  simp only [refusal?, Listable, ← hroot]
  split
  · simp_all
  · rename_i h
    rw [tooLong?_eq_none_iff, Nat.succ_le_iff, or_iff_right h]

/-- A listing shows what is nested under its key, or is refused, and changes nothing. -/
theorem lists_answer (h : d.rows.Sorted) (hs : scope.Plain) (now : Time) :
    (d.answer (.list scope) now).2 = d ∧
      (Listable scope → d.Lists scope (d.answer (.list scope) now).1.result) ∧
      (¬ Listable scope →
        ∃ reason, (d.answer (.list scope) now).1.result = .error (.backend scope reason)) := by
  by_cases hl : Listable scope
  · rw [answer_of_accepted (refusal?_list_eq_none_iff.mpr hl)]
    exact ⟨rfl, fun _ => lists_nested h hs, fun hn => absurd hl hn⟩
  · obtain ⟨reason, hr⟩ := Option.ne_none_iff_exists'.mp (mt refusal?_list_eq_none_iff.mp hl)
    rw [answer_of_refusal hr]
    exact ⟨rfl, fun hn => absurd hn hl, fun _ => ⟨reason, rfl⟩⟩

/-- **Listings.** After any run of requests a database lists under every key without delimiters in
its segments exactly what is stored under it, in memory and in a file. A listing under a key whose
text is too long is refused. -/
theorem lists_after (path : String) (clock : Nat → Time) (requests : List Request) (now : Time)
    {scope : Key} (hs : scope.Plain) :
    (let d := (backend path).after clock requests 0 empty
     let listed := (d.answer (.list scope) now).1.result
     (Listable scope → d.Lists scope listed) ∧
       (¬ Listable scope → ∃ reason, listed = .error (.backend scope reason))) ∧
    ∀ (f : DatabaseFile) (disk : Disk),
      let s := (f.backend path).after clock requests 0 (disk, empty)
      let listed := (f.answer path (.list scope) now s).1.result
      (Listable scope → s.2.Lists scope listed) ∧
        (¬ Listable scope → ∃ reason, listed = .error (.backend scope reason)) := by
  constructor
  · exact (lists_answer (sorted_after path clock requests) hs now).2
  · intro f disk s
    obtain ⟨hsame, hlists⟩ :=
      lists_answer (sorted_after_file path f clock requests disk) hs now
    have hfile : (f.answer path (.list scope) now s).1 = (s.2.answer (.list scope) now).1 := by
      unfold DatabaseFile.answer
      simp only [s, hsame, if_true]
    rw [hfile]
    exact hlists

/-- Keys around the characters `/` and `0`, the root, and the key of one empty segment. -/
def listedRun : List Request :=
  [.save ⟨["a"]⟩ (.ofBytes [1]), .save ⟨["a", "b"]⟩ (.ofBytes [2]), .save ⟨["a0"]⟩ (.ofBytes [3]),
    .save ⟨["a", "", "c"]⟩ (.ofBytes [4]), .save .root (.ofBytes [5]),
    .move ⟨["a"]⟩ ⟨["a", "b", "c"]⟩, .delete ⟨["a", "b"]⟩]

theorem lists_after_listedRun :
    (⟨["a"]⟩ : Key).Plain ∧ Listable ⟨["a"]⟩ ∧
      (let d := (backend "store.db").after (fun n => ⟨n⟩) listedRun 0 empty
       d.Lists ⟨["a"]⟩ (d.answer (.list ⟨["a"]⟩) ⟨7⟩).1.result) ∧
      (let d := (backend "store.db").after (fun n => ⟨n⟩) listedRun 0 empty
       (d.answer (.list ⟨["a"]⟩) ⟨7⟩).1.result = .ok [⟨["a", "", "c"]⟩, ⟨["a", "b", "c"]⟩]) := by
  have hs : (⟨["a"]⟩ : Key).Plain := by decide
  have hl : Listable ⟨["a"]⟩ := by decide +kernel
  exact ⟨hs, hl, (lists_after "store.db" (fun n => ⟨n⟩) listedRun ⟨7⟩ hs).1.1 hl,
    by decide +kernel⟩

/-- A value stored under the root is listed among the keys nested under the root, where a memory
lists nothing. -/
theorem lists_root_itself :
    ¬ Key.root.Under Key.root ∧
      (let d := (backend "store.db").after (fun n => ⟨n⟩) [.save .root (.ofBytes [118])] 0 empty
       (d.answer (.list .root) ⟨1⟩).1.result = .ok [.root]) ∧
      (let m := Memory.backend.after (fun n => ⟨n⟩) [.save .root (.ofBytes [118])] 0 Memory.empty
       (m.answer (.list .root) ⟨1⟩).1.result = .ok []) := by
  decide +kernel

end Database

end BlobStore
