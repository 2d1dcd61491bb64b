import BlobStore.Disk
import BlobStore.Proofs.Text.Utf8
import Mathlib.Data.List.Induction
import Mathlib.Data.String.Basic

/-!
# Paths continued and cut back

A path that goes on with names passes what it passed and then the names. What no call accepts of a
path is found in its pieces and in its length, so a path is accepted if one that goes on from it is.
The path above a path with one name more is that path, without the pieces at its end that lead
nowhere.

## Main definitions

* `DiskPath.IsName`: a piece that names an entry
* `DiskPath.bare`: a path without the pieces at its end that lead nowhere

## Main results

* `DiskPath.passes_descend`: what a path passes that goes on with names
* `DiskPath.components_descend`: the components of such a path
* `DiskPath.parent_child`, `DiskPath.ancestry_child`: the paths above one with more names
* `Disk.refuse_of_descend`: a path is accepted if one that goes on from it is
-/

namespace BlobStore

/-! ## Names -/

section

variable {texts others : List String} {name : FileName} {key other : Key}

/-- A name that is read as a text without replacements is that text. -/
theorem FileName.lossy_eq_iff {text : String} (h : '\uFFFD' ∉ text.toList) :
    name.lossy = text ↔ name = .text text := by
  cases name with
  | text t => simp [lossy]
  | raw bytes =>
    refine iff_of_false (fun he => h ?_) (by simp)
    rw [← he]
    exact Utf8.replacement_mem_lossy bytes.property

@[simp] theorem namesOf_nil : namesOf [] = [] := rfl

@[simp] theorem namesOf_cons (text : String) (texts : List String) :
    namesOf (text :: texts) = .text text :: namesOf texts := rfl

@[simp] theorem namesOf_append (texts others : List String) :
    namesOf (texts ++ others) = namesOf texts ++ namesOf others := List.map_append

@[simp] theorem namesOf_eq_nil : namesOf texts = [] ↔ texts = [] := List.map_eq_nil_iff

@[simp] theorem length_namesOf (texts : List String) : (namesOf texts).length = texts.length :=
  List.length_map _

theorem namesOf_injective : Function.Injective namesOf :=
  List.map_injective_iff.mpr fun _ _ => FileName.text.inj

@[simp] theorem namesOf_inj : namesOf texts = namesOf others ↔ texts = others :=
  namesOf_injective.eq_iff

/-- What names of texts are put together from are names of texts. -/
theorem namesOf_eq_append {front rest : List FileName} :
    namesOf texts = front ++ rest ↔
      ∃ before after, texts = before ++ after ∧ namesOf before = front ∧ namesOf after = rest :=
  List.map_eq_append_iff

theorem sizeOfNames_append (names others : List FileName) :
    sizeOfNames (names ++ others) = sizeOfNames names + sizeOfNames others := by
  induction names with
  | nil => exact (Nat.zero_add _).symm
  | cons name rest ih => rw [List.cons_append, sizeOfNames, sizeOfNames, ih, Nat.add_assoc]

@[simp] theorem Key.names_root : Key.root.names = [] := rfl

@[simp] theorem Key.names_mk (segments : List String) : Key.names ⟨segments⟩ = namesOf segments :=
  rfl

@[simp] theorem Key.names_inj : key.names = other.names ↔ key = other := by
  rw [names, names, namesOf_inj]
  exact ⟨fun h => by cases key; cases other; exact congrArg Key.mk h, congrArg Key.segments⟩

@[simp] theorem Key.names_eq_nil : key.names = [] ↔ key = Key.root := by
  rw [← Key.names_root, Key.names_inj]

@[simp] theorem Key.names_join (key other : Key) :
    (key.join other).names = key.names ++ other.names := namesOf_append _ _

/-- A key whose names go on from those of another is nested in it. -/
theorem Key.names_eq_append {way : List FileName} :
    other.names = key.names ++ way ↔ ∃ rest : Key, rest.names = way ∧ key.join rest = other := by
  constructor
  · intro h
    obtain ⟨before, after, hsegments, hbefore, rfl⟩ := namesOf_eq_append.mp h
    obtain rfl : before = key.segments := namesOf_inj.mp hbefore
    exact ⟨⟨after⟩, rfl, by cases other; exact congrArg Key.mk hsegments.symm⟩
  · rintro ⟨rest, rfl, rfl⟩
    exact names_join key rest

/-- A key is read back from its names. -/
@[simp] theorem Key.ofNames_names (key : Key) : Key.ofNames key.names = key := by
  unfold ofNames names namesOf
  rw [List.map_map]
  exact congrArg Key.mk (List.map_id' key.segments)

end

/-! ## Paths -/

namespace DiskPath

/-- A piece that names an entry. -/
def IsName (piece : FileName) : Prop := piece ≠ .text "" ∧ piece ≠ .text "." ∧ piece ≠ .text ".."

instance decidableIsName (piece : FileName) : Decidable (IsName piece) :=
  inferInstanceAs (Decidable (_ ∧ _ ∧ _))

theorem IsName.not_idle {piece : FileName} (h : IsName piece) : isIdle piece = false := by
  simp [isIdle, h.1, h.2.1]

variable {p : DiskPath} {name : FileName} {names : List FileName}

/-! ## More names -/

/-- The pieces that the names of a longer path stand behind. -/
def base (p : DiskPath) : List FileName :=
  if p.pieces.getLast? = some (.text "") then p.pieces.dropLast else p.pieces

theorem base_or (p : DiskPath) :
    (p.pieces = p.base ∧ p.pieces.getLast? ≠ some (.text "")) ∨
      p.pieces = p.base ++ [.text ""] := by
  unfold base
  split
  · rename_i h
    obtain ⟨before, hb⟩ := List.getLast?_eq_some_iff.mp h
    exact Or.inr (by simp [hb])
  · rename_i h
    exact Or.inl ⟨rfl, h⟩

theorem mem_of_mem_base {piece : FileName} (h : piece ∈ p.base) : piece ∈ p.pieces := by
  unfold base at h
  split at h
  · exact List.dropLast_subset _ h
  · exact h

theorem child_pieces (p : DiskPath) (name : FileName) :
    (p.child name).pieces = p.base ++ [name] := by
  unfold child base
  by_cases h : p.pieces.getLast? = some (.text "")
  · simp [h]
  · simp [h]

theorem base_child (h : name ≠ .text "") : (p.child name).base = p.base ++ [name] := by
  rw [base, if_neg, child_pieces]
  simp [child_pieces, h]

@[simp] theorem descend_nil (p : DiskPath) : p.descend [] = p := rfl

theorem descend_cons (p : DiskPath) (name : FileName) (names : List FileName) :
    p.descend (name :: names) = (p.child name).descend names := rfl

theorem descend_append (p : DiskPath) (names more : List FileName) :
    p.descend (names ++ more) = (p.descend names).descend more := List.foldl_append

theorem descend_concat (p : DiskPath) (names : List FileName) (name : FileName) :
    p.descend (names ++ [name]) = (p.descend names).child name := List.foldl_concat ..

theorem base_descend (h : ∀ name ∈ names, name ≠ .text "") :
    (p.descend names).base = p.base ++ names := by
  induction names generalizing p with
  | nil => simp
  | cons name names ih =>
    have hrest := fun n hn => h n (List.mem_cons_of_mem name hn)
    rw [descend_cons, ih hrest, base_child (h name List.mem_cons_self)]
    simp

theorem isEmpty_child (h : name ≠ .text "") : (p.child name).isEmpty = false := by
  simp [isEmpty, child_pieces, h]

theorem descend_pieces (hne : names ≠ []) (h : ∀ name ∈ names, name ≠ .text "") :
    (p.descend names).pieces = p.base ++ names := by
  obtain ⟨front, last, rfl⟩ := List.eq_nil_or_concat' names |>.resolve_left hne
  have hfront := fun name hn => h name (List.mem_append_left _ hn)
  rw [descend_concat, child_pieces, base_descend hfront, List.append_assoc]

theorem isEmpty_descend (hne : names ≠ []) (h : ∀ name ∈ names, name ≠ .text "") :
    (p.descend names).isEmpty = false := by
  obtain ⟨front, last, rfl⟩ := List.eq_nil_or_concat' names |>.resolve_left hne
  rw [descend_concat]
  exact isEmpty_child (h last (by simp))

theorem passes_eq_base (p : DiskPath) : p.passes = p.base.filter (· ≠ .text "") := by
  unfold passes
  rcases p.base_or with ⟨h, -⟩ | h
  · rw [h]
  · rw [h, List.filter_append]
    simp

theorem passes_child (h : name ≠ .text "") : (p.child name).passes = p.passes ++ [name] := by
  rw [passes_eq_base, passes_eq_base, base_child h, List.filter_append]
  simp [h]

/-- A path that goes on with names passes them last. -/
theorem passes_descend (h : ∀ name ∈ names, name ≠ .text "") :
    (p.descend names).passes = p.passes ++ names := by
  rw [passes_eq_base, passes_eq_base, base_descend h, List.filter_append]
  congr 1
  exact List.filter_eq_self.mpr fun n hn => by simp [h n hn]

theorem closed_child (h : name ≠ .text "") : (p.child name).closed = false := by
  simp [closed, child_pieces, h]

theorem closed_concat (names : List FileName) (h : name ≠ .text "") :
    (p.descend (names ++ [name])).closed = false := by
  rw [descend_concat]
  exact closed_child h

theorem steps_child (h : name ≠ .text "") : (p.child name).steps = p.passes ++ [name] := by
  rw [steps, closed_child h, passes_child h]
  rfl

theorem absolute_iff : p.absolute ↔ ∃ next rest, p.pieces = .text "" :: next :: rest := by
  unfold absolute isEmpty
  cases hp : p.pieces with
  | nil => simp
  | cons piece rest =>
    cases rest with
    | nil => by_cases h : piece = .text "" <;> simp [h]
    | cons next rest => simp

theorem absolute_child (h : name ≠ .text "") : (p.child name).absolute = p.absolute := by
  rw [Bool.eq_iff_iff, absolute_iff, absolute_iff, child_pieces]
  rcases p.base_or with ⟨hb, hlast⟩ | hb
  · rw [hb] at hlast ⊢
    cases hbase : p.base with
    | nil => simp [h]
    | cons piece rest =>
      cases rest with
      | nil =>
        have hne : piece ≠ .text "" := by simpa [hbase] using hlast
        simp [hne]
      | cons next rest => simp
  · rw [hb]
    cases hbase : p.base with
    | nil => simp [h]
    | cons piece rest => cases rest <;> simp

theorem absolute_descend (h : ∀ name ∈ names, name ≠ .text "") :
    (p.descend names).absolute = p.absolute := by
  induction names generalizing p with
  | nil => rfl
  | cons name names ih =>
    have hrest := fun n hn => h n (List.mem_cons_of_mem name hn)
    rw [descend_cons, ih hrest, absolute_child (h name List.mem_cons_self)]

/-- A path that goes on with names is open at its end. -/
theorem steps_descend (hne : names ≠ []) (h : ∀ name ∈ names, name ≠ .text "") :
    (p.descend names).steps = p.passes ++ names := by
  obtain ⟨init, last, rfl⟩ := List.eq_nil_or_concat' names |>.resolve_left hne
  rw [steps, descend_concat, closed_child (h last (by simp)), ← descend_concat, passes_descend h]
  rfl

/-! ## Components -/

theorem parts_eq_base (p : DiskPath) : p.parts = p.base.filter (!isIdle ·) := by
  unfold parts
  rcases p.base_or with ⟨hb, -⟩ | hb
  · rw [hb]
  · rw [hb, List.filter_append]
    simp [isIdle]

theorem parts_descend (h : ∀ name ∈ names, IsName name) :
    (p.descend names).parts = p.parts ++ names := by
  rw [parts_eq_base, parts_eq_base, base_descend fun name hm => (h name hm).1, List.filter_append]
  congr 1
  exact List.filter_eq_self.mpr fun name hm => by simp [(h name hm).not_idle]

/-- Names put behind a path do not change its beginning. -/
theorem head?_descend (h : ∀ name ∈ names, IsName name) :
    (p.descend names).pieces.head? = some (.text ".") ↔ p.pieces.head? = some (.text ".") := by
  by_cases hne : names = []
  · rw [hne, descend_nil]
  · rw [descend_pieces hne fun name hm => (h name hm).1]
    obtain ⟨first, rest, rfl⟩ := List.exists_cons_of_ne_nil hne
    have hfirst := (h first List.mem_cons_self).2.1
    rcases p.base_or with ⟨hb, -⟩ | hb
    · rw [hb]
      cases p.base with
      | nil => simp [hfirst]
      | cons piece base => rfl
    · rw [hb]
      cases p.base with
      | nil => simp [hfirst]
      | cons piece base => rfl

/-- The components of a path that goes on with names are its own and the names. -/
theorem components_descend (h : ∀ name ∈ names, IsName name) :
    (p.descend names).components = p.components ++ names.map .name := by
  have hnames : names.map component = names.map .name :=
    List.map_congr_left fun name hm => if_neg (h name hm).2.2
  unfold components
  simp only [absolute_descend fun name hm => (h name hm).1, head?_descend h, parts_descend h,
    List.map_append, hnames, List.append_assoc]

/-! ## The path above -/

/-- The path without the pieces at its end that lead nowhere. -/
def bare (p : DiskPath) : DiskPath :=
  match trimmed p.pieces with
  | [] => if p.absolute then ⟨[.text "", .text ""]⟩ else ⟨[.text ""]⟩
  | pieces => ⟨pieces⟩

theorem trimmed_concat {pieces : List FileName} {piece : FileName} (h : isIdle piece = false) :
    trimmed (pieces ++ [piece]) = pieces ++ [piece] := by
  simp [trimmed, h]

theorem trimmed_base (p : DiskPath) : trimmed p.base = trimmed p.pieces := by
  rcases p.base_or with ⟨hb, -⟩ | hb
  · rw [hb]
  · rw [hb]
    simp [trimmed, isIdle]

theorem parent_child (h : IsName name) : (p.child name).parent = p.bare := by
  have ht : trimmed (trimmed (p.child name).pieces).dropLast = trimmed p.pieces := by
    rw [child_pieces, trimmed_concat h.not_idle, List.dropLast_concat, trimmed_base]
  unfold parent bare
  cases hp : trimmed p.pieces with
  | nil => simp only [ht, hp, absolute_child h.1]
  | cons piece rest => simp only [ht, hp]

theorem parent_descend {names : List FileName} (h : IsName name) :
    (p.descend (names ++ [name])).parent = (p.descend names).bare := by
  rw [descend_concat, parent_child h]

theorem bare_child (h : IsName name) : (p.child name).bare = p.child name := by
  have ht : trimmed (p.child name).pieces = p.base ++ [name] := by
    rw [child_pieces, trimmed_concat h.not_idle]
  unfold bare
  rw [ht]
  cases hb : p.base ++ [name] with
  | nil => simp at hb
  | cons piece rest => exact congrArg mk (hb.symm.trans (child_pieces p name).symm)

theorem length_parts_child (h : IsName name) :
    (p.child name).parts.length = p.parts.length + 1 := by
  rw [parts_eq_base p, parts, child_pieces, List.filter_append]
  simp [h.not_idle]

theorem filter_trimmed (pieces : List FileName) :
    (trimmed pieces).filter (!isIdle ·) = pieces.filter (!isIdle ·) := by
  induction pieces using List.reverseRecOn with
  | nil => rfl
  | append_singleton pieces piece ih =>
    cases hi : isIdle piece with
    | false => rw [trimmed_concat hi]
    | true =>
      have ht : trimmed (pieces ++ [piece]) = trimmed pieces := by simp [trimmed, hi]
      rw [ht, ih, List.filter_append]
      simp [hi]

theorem parts_bare (p : DiskPath) : p.bare.parts = p.parts := by
  unfold parts
  rw [← filter_trimmed p.pieces, bare]
  split
  · rename_i ht
    rw [ht]
    split <;> simp [isIdle]
  · rfl

/-- Above a path with one name more stands that path, and what is above that. -/
theorem ancestry_child (h : IsName name) :
    (p.child name).ancestry = p.child name :: p.bare.ancestry := by
  unfold ancestry
  rw [length_parts_child h, ascend, parent_child h, parts_bare]

theorem trimmed_append_idle (pieces : List FileName) :
    ∃ idle, pieces = trimmed pieces ++ idle ∧ ∀ piece ∈ idle, isIdle piece := by
  induction pieces using List.reverseRecOn with
  | nil => exact ⟨[], rfl, by simp⟩
  | append_singleton pieces piece ih =>
    cases hi : isIdle piece with
    | false => exact ⟨[], by rw [trimmed_concat hi, List.append_nil], by simp⟩
    | true =>
      obtain ⟨idle, he, hidle⟩ := ih
      have ht : trimmed (pieces ++ [piece]) = trimmed pieces := by simp [trimmed, hi]
      refine ⟨idle ++ [piece], ?_, ?_⟩
      · rw [ht, ← List.append_assoc, ← he]
      · intro other ho
        rcases List.mem_append.mp ho with ho | ho
        · exact hidle other ho
        · exact List.mem_singleton.mp ho ▸ hi

theorem trimmed_prefix_self (pieces : List FileName) : trimmed pieces <+: pieces := by
  obtain ⟨idle, he, -⟩ := trimmed_append_idle pieces
  exact ⟨idle, he.symm⟩

theorem bare_pieces (h : p.parts ≠ []) : p.bare.pieces = trimmed p.pieces := by
  unfold bare
  split
  · rename_i ht
    rw [parts, ← filter_trimmed, ht] at h
    exact absurd rfl h
  · rfl

/-- What leads nowhere at the end of a path are single dots. -/
theorem passes_bare (h : p.parts ≠ []) :
    ∃ dots, p.passes = p.bare.passes ++ dots ∧ ∀ piece ∈ dots, piece = .text "." := by
  obtain ⟨idle, he, hidle⟩ := trimmed_append_idle p.pieces
  refine ⟨idle.filter (· ≠ .text ""), ?_, ?_⟩
  · rw [passes, passes, bare_pieces h, ← List.filter_append, ← he]
  · intro piece hp
    obtain ⟨hm, hne⟩ := List.mem_filter.mp hp
    have hi := hidle piece hm
    simp only [isIdle, Bool.or_eq_true, decide_eq_true_eq] at hi
    rcases hi with hi | hi
    · exact absurd hi (of_decide_eq_true hne)
    · exact hi

theorem trimmed_eq_concat {pieces : List FileName} (h : trimmed pieces ≠ []) :
    ∃ front piece, trimmed pieces = front ++ [piece] ∧ isIdle piece = false := by
  induction pieces using List.reverseRecOn with
  | nil => exact absurd rfl h
  | append_singleton pieces piece ih =>
    cases hi : isIdle piece with
    | false => exact ⟨pieces, piece, trimmed_concat hi, hi⟩
    | true =>
      have ht : trimmed (pieces ++ [piece]) = trimmed pieces := by simp [trimmed, hi]
      rw [ht] at h ⊢
      exact ih h

theorem bare_concat (h : p.parts ≠ []) :
    ∃ front piece, p.bare.pieces = front ++ [piece] ∧ isIdle piece = false := by
  rw [bare_pieces h]
  apply trimmed_eq_concat
  intro ht
  rw [parts, ← filter_trimmed, ht] at h
  exact h rfl

/-- Whether a path starts at the top is seen from its beginning, up to a piece that leads on. -/
theorem absolute_of_prefix {q : DiskPath} (h : p.pieces <+: q.pieces) {front : List FileName}
    {piece : FileName} (hp : p.pieces = front ++ [piece]) (hi : isIdle piece = false) :
    p.absolute = q.absolute := by
  obtain ⟨more, hq⟩ := h
  rw [Bool.eq_iff_iff, absolute_iff, absolute_iff, ← hq, hp]
  cases front with
  | nil =>
    have hne : piece ≠ .text "" := by
      rintro rfl
      simp [isIdle] at hi
    simp [hne]
  | cons first front => cases front <;> simp

theorem bare_prefix_self (h : p.parts ≠ []) : p.bare.pieces <+: p.pieces := by
  rw [bare_pieces h]
  exact trimmed_prefix_self _

theorem absolute_bare (h : p.parts ≠ []) : p.bare.absolute = p.absolute := by
  obtain ⟨front, piece, hb, hi⟩ := bare_concat h
  exact absolute_of_prefix (bare_prefix_self h) hb hi

theorem isEmpty_bare (h : p.parts ≠ []) : p.bare.isEmpty = false := by
  obtain ⟨front, piece, hb, hi⟩ := bare_concat h
  have hne : piece ≠ .text "" := by
    rintro rfl
    simp [isIdle] at hi
  simp [isEmpty, hb, hne]

theorem parent_pieces (h : p.parent.parts ≠ []) :
    p.parent.pieces = trimmed (trimmed p.pieces).dropLast := by
  unfold parent at h ⊢
  split
  · rename_i ht
    rw [ht] at h
    simp only at h
    split at h <;> exact absurd rfl h
  · rfl

theorem parent_prefix_self (h : p.parent.parts ≠ []) : p.parent.pieces <+: p.pieces := by
  rw [parent_pieces h]
  exact (trimmed_prefix_self _).trans ((List.dropLast_prefix _).trans (trimmed_prefix_self _))

theorem parent_concat (h : p.parent.parts ≠ []) :
    ∃ front piece, p.parent.pieces = front ++ [piece] ∧ isIdle piece = false := by
  rw [parent_pieces h]
  apply trimmed_eq_concat
  intro ht
  rw [parts, parent_pieces h, ht] at h
  exact h rfl

/-- Nothing that leads nowhere is at the end of a path above another. -/
theorem bare_parent (h : p.parent.parts ≠ []) : p.parent.bare = p.parent := by
  obtain ⟨front, piece, he, hi⟩ := parent_concat h
  have hb : p.parent.bare.pieces = p.parent.pieces := by
    rw [bare_pieces h, he, trimmed_concat hi]
  exact congrArg mk hb

/-- A path made of the first pieces of another has no more components, and neither has what stands
for a path without pieces. -/
theorem length_components_le_of_prefix {q : DiskPath} {pieces : List FileName}
    (hq : q = match pieces with
      | [] => if p.absolute then ⟨[.text "", .text ""]⟩ else ⟨[.text ""]⟩
      | pieces => ⟨pieces⟩)
    (h : pieces <+: p.pieces) : q.components.length ≤ p.components.length := by
  cases pieces with
  | nil =>
    subst hq
    simp only
    split
    · rename_i habsolute
      have hsmall : (⟨[.text "", .text ""]⟩ : DiskPath).components.length = 1 := by decide
      rw [hsmall, components, if_pos habsolute]
      simp
    · exact Nat.zero_le _
  | cons first rest =>
    subst hq
    obtain ⟨more, hmore⟩ := h
    have hparts : (⟨first :: rest⟩ : DiskPath).parts.length ≤ p.parts.length := by
      rw [parts, parts, ← hmore, List.filter_append, List.length_append]
      exact Nat.le_add_right _ _
    have hhead : p.pieces.head? = some first := by rw [← hmore]; rfl
    have habsolute : (⟨first :: rest⟩ : DiskPath).absolute → p.absolute := by
      rw [absolute_iff, absolute_iff]
      rintro ⟨next, others, he⟩
      rw [← hmore, show first :: rest = _ from he]
      exact ⟨next, others ++ more, rfl⟩
    unfold components
    simp only [List.length_append, List.length_map, hhead, List.head?_cons]
    refine Nat.add_le_add ?_ hparts
    generalize (⟨first :: rest⟩ : DiskPath).absolute = inner at habsolute ⊢
    generalize p.absolute = outer at habsolute ⊢
    by_cases hfirst : first = .text "." <;> cases inner <;> cases outer <;> simp_all

theorem length_components_bare_le (p : DiskPath) :
    p.bare.components.length ≤ p.components.length :=
  length_components_le_of_prefix rfl (trimmed_prefix_self _)

theorem length_components_parent_le (p : DiskPath) :
    p.parent.components.length ≤ p.components.length :=
  length_components_le_of_prefix rfl
    ((trimmed_prefix_self _).trans ((List.dropLast_prefix _).trans (trimmed_prefix_self _)))

/-! ## Length -/

/-- A path is at least as long as its beginning. -/
theorem size_le_of_prefix {q : DiskPath} (h : p.pieces <+: q.pieces) : p.size ≤ q.size := by
  obtain ⟨more, hq⟩ := h
  unfold size
  rw [← hq, sizeOfNames_append, List.length_append]
  omega

end DiskPath

/-! ## Accepted paths -/

namespace Disk

variable {p q : DiskPath} {names more : List FileName}

theorem refuse_eq_none_iff :
    refuse p = none ↔
      (∀ piece ∈ p.pieces, piece.hasNul = false) ∧ p.isEmpty = false ∧ p.size < pathLimit := by
  unfold refuse
  split
  · rename_i h
    simp only [List.any_eq_true] at h
    simp only [reduceCtorEq, false_iff, not_and]
    intro hn
    obtain ⟨piece, hp, hc⟩ := h
    exact absurd hc (by simp [hn piece hp])
  · rename_i h
    have hn : ∀ piece ∈ p.pieces, piece.hasNul = false := by simpa using h
    split
    · simp_all
    · split
      · simp_all
      · simp_all

/-- A path is accepted if one is that begins with it. -/
theorem refuse_of_prefix (h : refuse q = none) (hp : p.pieces <+: q.pieces)
    (he : p.isEmpty = false) : refuse p = none := by
  obtain ⟨hn, -, hs⟩ := refuse_eq_none_iff.mp h
  refine refuse_eq_none_iff.mpr ⟨fun piece hm => hn piece (hp.subset hm), he, ?_⟩
  exact lt_of_le_of_lt (DiskPath.size_le_of_prefix hp) hs

/-- A path that goes on with names is accepted if one is that goes on further. -/
theorem refuse_of_descend (h : refuse (p.descend (names ++ more)) = none) (hne : names ≠ [])
    (hn : ∀ name ∈ names ++ more, name ≠ .text "") : refuse (p.descend names) = none := by
  have hfirst := fun name hm => hn name (List.mem_append_left more hm)
  refine refuse_of_prefix h ?_ (DiskPath.isEmpty_descend hne hfirst)
  rw [DiskPath.descend_pieces hne hfirst, DiskPath.descend_pieces (by simp [hne]) hn,
    ← List.append_assoc]
  exact List.prefix_append _ _

/-- A path that goes on with names from an accepted one can be too long, and is accepted if it is
not. -/
theorem refuse_descend (h : refuse p = none) (hne : names ≠ [])
    (hn : ∀ name ∈ names, name ≠ .text "" ∧ name.hasNul = false) :
    refuse (p.descend names) =
      if pathLimit ≤ (p.descend names).size then some .nameTooLong else none := by
  obtain ⟨hnul, -, -⟩ := refuse_eq_none_iff.mp h
  have hns : ∀ name ∈ names, name ≠ .text "" := fun name hm => (hn name hm).1
  have hpieces : ∀ piece ∈ (p.descend names).pieces, piece.hasNul = false := by
    intro piece hm
    rw [DiskPath.descend_pieces hne hns] at hm
    rcases List.mem_append.mp hm with hm | hm
    · exact hnul piece (DiskPath.mem_of_mem_base hm)
    · exact (hn piece hm).2
  have hany : (p.descend names).pieces.any (·.hasNul) = false := by
    simpa using hpieces
  unfold refuse
  rw [hany, DiskPath.isEmpty_descend hne hns]
  rfl

/-- What leads nowhere at the end of a path is not needed for it to be accepted. -/
theorem refuse_bare (h : refuse p = none) (hp : p.parts ≠ []) : refuse p.bare = none :=
  refuse_of_prefix h (DiskPath.bare_prefix_self hp) (DiskPath.isEmpty_bare hp)

end Disk

end BlobStore
