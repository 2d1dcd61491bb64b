import BlobStore.Proofs.Order

/-!
# Texts, prefixes and listings of keys

A key without delimiters in its segments is read back from its text, unless it is the root or the
key of one empty segment, which share the empty text. The keys that start with a key stand next to
each other in the order of keys, and their texts are those that begin with its text and a delimiter.

## Main definitions

* `Key.Plain`: no segment contains the delimiter
* `Key.Under`: a key nested under another

## Main results

* `Key.parse_text`, `Key.text_parse`: keys are read back from texts, and texts from keys
* `Key.under_iff_text`: nested keys by their texts
* `Key.startsWith_of_between`: the keys that start with a key are contiguous
* `Key.sort_eq_of_perm`: sorting gives the one ascending order
-/

namespace BlobStore

namespace Key

/-! ## Pieces -/

theorem pieces_ne_nil (text : List Char) : pieces text ≠ [] := by
  cases text with
  | nil => simp [pieces]
  | cons c rest =>
    simp only [pieces]
    split
    · simp
    · split <;> simp

theorem pieces_delimiter (rest : List Char) : pieces (delimiter :: rest) = [] :: pieces rest :=
  if_pos rfl

theorem pieces_cons {c : Char} (hc : c ≠ delimiter) (rest : List Char) :
    pieces (c :: rest) = (c :: (pieces rest).headD []) :: (pieces rest).tail := by
  rw [pieces, if_neg hc]
  cases h : pieces rest with
  | nil => rfl
  | cons piece others => rfl

theorem pieces_of_not_mem {piece : List Char} (h : delimiter ∉ piece) : pieces piece = [piece] := by
  induction piece with
  | nil => rfl
  | cons c rest ih =>
    obtain ⟨hc, hrest⟩ := not_or.mp (List.mem_cons.not.mp h)
    rw [pieces_cons (Ne.symm hc), ih hrest]
    rfl

/-- Pieces are cut at every delimiter. -/
theorem pieces_append (text rest : List Char) :
    pieces (text ++ delimiter :: rest) = pieces text ++ pieces rest := by
  induction text with
  | nil => exact pieces_delimiter rest
  | cons c text ih =>
    by_cases hc : c = delimiter
    · subst hc
      rw [List.cons_append, pieces_delimiter, pieces_delimiter, ih, List.cons_append]
    · obtain ⟨piece, others, hp⟩ := List.exists_cons_of_ne_nil (pieces_ne_nil text)
      rw [List.cons_append, pieces_cons hc, pieces_cons hc, ih, hp]
      rfl

/-- No piece contains a delimiter. -/
theorem not_mem_of_mem_pieces {text piece : List Char} (h : piece ∈ pieces text) :
    delimiter ∉ piece := by
  induction text generalizing piece with
  | nil =>
    obtain rfl := List.mem_singleton.mp h
    exact List.not_mem_nil
  | cons c rest ih =>
    obtain ⟨first, others, hp⟩ := List.exists_cons_of_ne_nil (pieces_ne_nil rest)
    by_cases hc : c = delimiter
    · subst hc
      rw [pieces_delimiter] at h
      rcases List.mem_cons.mp h with rfl | h
      · exact List.not_mem_nil
      · exact ih h
    · rw [pieces_cons hc, hp] at h
      rw [hp] at ih
      rcases List.mem_cons.mp h with rfl | h
      · exact not_or.mpr ⟨Ne.symm hc, ih List.mem_cons_self⟩ ∘ List.mem_cons.mp
      · exact ih (List.mem_cons_of_mem first h)

theorem joined_cons (piece : List Char) {others : List (List Char)} (h : others ≠ []) :
    joined (piece :: others) = piece ++ delimiter :: joined others := by
  obtain ⟨next, rest, rfl⟩ := List.exists_cons_of_ne_nil h
  rfl

/-- Pieces without delimiters are found again in the text that joins them. -/
theorem pieces_joined {ps : List (List Char)} (hne : ps ≠ []) (h : ∀ p ∈ ps, delimiter ∉ p) :
    pieces (joined ps) = ps := by
  induction ps with
  | nil => exact absurd rfl hne
  | cons p ps ih =>
    have hp := pieces_of_not_mem (h p List.mem_cons_self)
    by_cases hps : ps = []
    · subst hps
      exact hp
    · have hrest := fun q hq => h q (List.mem_cons_of_mem p hq)
      rw [joined_cons p hps, pieces_append, hp, ih hps hrest]
      rfl

/-- A text is its pieces with a delimiter between neighbours. -/
theorem joined_pieces (text : List Char) : joined (pieces text) = text := by
  induction text with
  | nil => rfl
  | cons c rest ih =>
    by_cases hc : c = delimiter
    · subst hc
      rw [pieces_delimiter, joined_cons [] (pieces_ne_nil rest), ih]
      rfl
    · obtain ⟨first, others, hp⟩ := List.exists_cons_of_ne_nil (pieces_ne_nil rest)
      rw [hp] at ih
      rw [pieces_cons hc, hp, ← ih]
      cases others with
      | nil => rfl
      | cons next others => rfl

theorem joined_append {ps qs : List (List Char)} (hp : ps ≠ []) (hq : qs ≠ []) :
    joined (ps ++ qs) = joined ps ++ delimiter :: joined qs := by
  induction ps with
  | nil => exact absurd rfl hp
  | cons p ps ih =>
    by_cases hps : ps = []
    · subst hps
      exact joined_cons p hq
    · rw [List.cons_append, joined_cons p (by simp [hps]), joined_cons p hps, ih hps]
      simp

/-! ## Texts -/

/-- No segment contains the delimiter. -/
def Plain (k : Key) : Prop := ∀ segment ∈ k.segments, delimiter ∉ segment.toList

instance decidablePlain (k : Key) : Decidable k.Plain :=
  inferInstanceAs (Decidable (∀ segment ∈ k.segments, delimiter ∉ segment.toList))

/-- The segments as lists of characters. -/
def spelled (k : Key) : List (List Char) := k.segments.map String.toList

theorem toList_text (k : Key) : k.text.toList = joined k.spelled := String.toList_ofList

theorem spelled_injective {a b : Key} (h : a.spelled = b.spelled) : a = b :=
  ext_segments (List.map_injective_iff.mpr (fun _ _ => String.toList_injective) h)

theorem segments_eq_spelled (k : Key) : k.segments = k.spelled.map String.ofList := by
  unfold spelled
  rw [List.map_map]
  exact ((List.map_congr_left fun segment _ => String.ofList_toList).trans (List.map_id _)).symm

theorem Plain.not_mem {k : Key} (h : k.Plain) : ∀ p ∈ k.spelled, delimiter ∉ p := by
  intro p hp
  obtain ⟨segment, hs, rfl⟩ := List.mem_map.mp hp
  exact h segment hs

theorem Plain.pieces_text {k : Key} (h : k.Plain) (hr : k ≠ root) :
    pieces k.text.toList = k.spelled := by
  rw [toList_text]
  refine pieces_joined (fun hn => hr ?_) h.not_mem
  exact spelled_injective hn

/-- Only the root and the key of one empty segment have the empty text. -/
theorem Plain.text_ne_empty {k : Key} (h : k.Plain) (hr : k ≠ root) (he : k ≠ ⟨[""]⟩) :
    k.text ≠ "" := by
  intro ht
  have hp := h.pieces_text hr
  rw [ht] at hp
  exact he (spelled_injective hp.symm)

/-- A text is read back as its key. -/
theorem parse_text {k : Key} (h : k.Plain) (hr : k ≠ root) (he : k ≠ ⟨[""]⟩) :
    parse k.text = k := by
  unfold parse
  rw [if_neg (h.text_ne_empty hr he), h.pieces_text hr]
  exact ext_segments k.segments_eq_spelled.symm

/-- Every text is that of the key that it is read as. -/
theorem text_parse (text : String) : (parse text).text = text := by
  unfold parse
  split
  · rename_i h
    exact h.symm
  · rw [← String.toList_inj, toList_text]
    have hspelled : (⟨(pieces text.toList).map String.ofList⟩ : Key).spelled =
        pieces text.toList := by
      simp [spelled, Function.comp_def]
    rw [hspelled, joined_pieces]

/-- The key that a text is read as has no delimiter in its segments. -/
theorem plain_parse (text : String) : (parse text).Plain := by
  unfold parse
  split
  · exact fun segment h => absurd h List.not_mem_nil
  · intro segment h
    obtain ⟨piece, hp, rfl⟩ := List.mem_map.mp h
    rw [String.toList_ofList]
    exact not_mem_of_mem_pieces hp

/-- No text is read as the key of one empty segment. -/
theorem parse_ne_empty (text : String) : parse text ≠ ⟨[""]⟩ := by
  intro h
  have ht := text_parse text
  rw [h] at ht
  subst ht
  cases h

theorem parse_injective : Function.Injective parse := fun a b h => by
  rw [← text_parse a, h, text_parse b]

/-! ## Prefixes -/

/-- A key nested under another, which it starts with and is not. -/
def Under (k scope : Key) : Prop := k.startsWith scope ∧ k ≠ scope

instance decidableUnder (k scope : Key) : Decidable (k.Under scope) :=
  inferInstanceAs (Decidable (_ ∧ _))

theorem startsWith_iff {k scope : Key} :
    k.startsWith scope ↔ ∃ rest, k.segments = scope.segments ++ rest := by
  unfold startsWith
  rw [List.isPrefixOf_iff_prefix]
  exact ⟨fun ⟨rest, h⟩ => ⟨rest, h.symm⟩, fun ⟨rest, h⟩ => ⟨rest, h.symm⟩⟩

theorem under_iff {k scope : Key} :
    k.Under scope ↔ ∃ rest, rest ≠ [] ∧ k.segments = scope.segments ++ rest := by
  unfold Under
  rw [startsWith_iff]
  constructor
  · rintro ⟨⟨rest, h⟩, hne⟩
    refine ⟨rest, ?_, h⟩
    rintro rfl
    exact hne (ext_segments (by simpa using h))
  · rintro ⟨rest, hrest, h⟩
    refine ⟨⟨rest, h⟩, ?_⟩
    rintro rfl
    exact hrest (List.self_eq_append_right.mp h)

/-- A key that starts with another is that one joined with what is left of it. -/
theorem stripStart?_eq_some {k scope inner : Key} :
    k.stripStart? scope = some inner ↔ k = scope.join inner := by
  unfold stripStart?
  constructor
  · intro h
    split at h
    · rename_i hstart
      obtain ⟨rest, hrest⟩ := startsWith_iff.mp hstart
      cases h
      apply ext_segments
      show k.segments = scope.segments ++ k.segments.drop scope.segments.length
      rw [hrest, List.drop_left]
    · cases h
  · rintro rfl
    have hstart : (scope.join inner).startsWith scope := startsWith_iff.mpr ⟨_, rfl⟩
    rw [if_pos hstart]
    exact congrArg some (ext_segments List.drop_left)

@[simp] theorem stripStart?_join (scope inner : Key) :
    (scope.join inner).stripStart? scope = some inner := stripStart?_eq_some.mpr rfl

@[simp] theorem startsWith_join (scope inner : Key) : (scope.join inner).startsWith scope :=
  startsWith_iff.mpr ⟨inner.segments, rfl⟩

theorem join_injective (scope : Key) : Function.Injective scope.join := by
  intro a b h
  have hstrip := congrArg (·.stripStart? scope) h
  simpa using hstrip

theorem root_join (k : Key) : root.join k = k := rfl

theorem join_join (a b k : Key) : (a.join b).join k = a.join (b.join k) := by
  simp [join]

theorem exists_join_of_startsWith {k scope : Key} (h : k.startsWith scope) :
    ∃ rest, k = scope.join rest := by
  obtain ⟨rest, hrest⟩ := startsWith_iff.mp h
  exact ⟨⟨rest⟩, ext_segments hrest⟩

theorem startsWith_self (k : Key) : k.startsWith k :=
  startsWith_iff.mpr ⟨[], (List.append_nil _).symm⟩

theorem startsWith_child {k scope : Key} (h : k.startsWith scope) (segment : String) :
    (k.child segment).startsWith scope := by
  obtain ⟨rest, rfl⟩ := exists_join_of_startsWith h
  exact startsWith_iff.mpr ⟨rest.segments ++ [segment], List.append_assoc _ _ _⟩

/-- Keys are nested under a key alike within a scope and outside of it. -/
theorem join_under_join {scope a b : Key} : (scope.join a).Under (scope.join b) ↔ a.Under b := by
  rw [under_iff, under_iff]
  simp [join]

/-- The texts of the keys under a key are those that begin with its text and a delimiter. -/
theorem under_iff_text {k scope : Key} (hk : k.Plain) (hs : scope.Plain) (hsr : scope ≠ root) :
    k.Under scope ↔ ∃ rest, k.text.toList = scope.text.toList ++ delimiter :: rest := by
  have hspelled : scope.spelled ≠ [] := fun hn => hsr (spelled_injective hn)
  rw [under_iff]
  constructor
  · rintro ⟨rest, hrest, h⟩
    refine ⟨joined (rest.map String.toList), ?_⟩
    rw [toList_text, toList_text, spelled, h, List.map_append]
    exact joined_append hspelled (by simpa using hrest)
  · rintro ⟨rest, h⟩
    have hkr : k ≠ root := by
      rintro rfl
      simp [toList_text, spelled, root, joined] at h
    have hp := hk.pieces_text hkr
    rw [h, pieces_append, hs.pieces_text hsr] at hp
    refine ⟨(pieces rest).map String.ofList, by simpa using pieces_ne_nil rest, ?_⟩
    rw [segments_eq_spelled k, segments_eq_spelled scope, ← hp, List.map_append]

/-! ## The order of prefixes -/

theorem prefix_of_between {scope a b : List String} (ha : ¬ a < scope) (hb : ¬ b < a)
    (h : scope <+: b) : scope <+: a := by
  induction scope generalizing a b with
  | nil => exact List.nil_prefix
  | cons x scope ih =>
    obtain ⟨rest, rfl⟩ := h
    cases a with
    | nil => exact absurd (List.nil_lt_cons x scope) ha
    | cons y a =>
      rw [List.cons_lt_cons_iff] at ha
      rw [List.cons_append, List.cons_lt_cons_iff] at hb
      obtain ⟨hyx, ha⟩ := not_or.mp ha
      obtain ⟨hxy, hb⟩ := not_or.mp hb
      obtain rfl : y = x := by
        by_contra hne
        rcases lt_or_gt_of_ne hne with h | h
        · exact hyx h
        · exact hxy h
      have hrest := ih (fun h => ha ⟨rfl, h⟩) (fun h => hb ⟨rfl, h⟩) (List.prefix_append scope rest)
      exact List.cons_prefix_cons.mpr ⟨rfl, hrest⟩

theorem not_append_lt (scope rest : List String) : ¬ scope ++ rest < scope := by
  induction scope with
  | nil => exact List.not_lt_nil _
  | cons x scope ih =>
    rw [List.cons_append, List.cons_lt_cons_iff]
    rintro (h | ⟨-, h⟩)
    · exact absurd rfl (ne_of_lt h)
    · exact ih h

/-- A key that starts with another does not stand before it. -/
theorem not_lt_of_startsWith {k scope : Key} (h : k.startsWith scope) : ¬ k < scope := by
  obtain ⟨rest, h⟩ := startsWith_iff.mp h
  intro hlt
  exact not_append_lt scope.segments rest (h ▸ hlt)

/-- The keys that start with a key are contiguous. -/
theorem startsWith_of_between {k k' scope : Key} (hk : ¬ k < scope) (hk' : ¬ k' < k)
    (h : k'.startsWith scope) : k.startsWith scope := by
  unfold startsWith at h ⊢
  rw [List.isPrefixOf_iff_prefix] at h ⊢
  exact prefix_of_between hk hk' h

theorem append_lt_append_iff (scope a b : List String) : scope ++ a < scope ++ b ↔ a < b := by
  induction scope with
  | nil => exact Iff.rfl
  | cons x scope ih =>
    rw [List.cons_append, List.cons_append, List.cons_lt_cons_iff, ih]
    constructor
    · rintro (h | ⟨-, h⟩)
      · exact absurd rfl (ne_of_lt h)
      · exact h
    · intro h
      exact Or.inr ⟨rfl, h⟩

/-- Keys stand in the same order within a scope and outside of it. -/
theorem join_lt_join_iff {scope a b : Key} : scope.join a < scope.join b ↔ a < b :=
  append_lt_append_iff scope.segments a.segments b.segments

/-- What ascending keys go on with after `scope` is ascending. -/
theorem pairwise_stripStart {keys : List Key} (h : keys.Pairwise (· < ·)) (scope : Key) :
    (keys.filterMap (·.stripStart? scope)).Pairwise (· < ·) := by
  refine List.Pairwise.filterMap _ ?_ h
  intro k k' hlt inner hk inner' hk'
  obtain rfl := stripStart?_eq_some.mp hk
  obtain rfl := stripStart?_eq_some.mp hk'
  exact join_lt_join_iff.mp hlt

theorem mem_stripStart {keys : List Key} {scope inner : Key} :
    inner ∈ keys.filterMap (·.stripStart? scope) ↔ scope.join inner ∈ keys := by
  simp only [List.mem_filterMap, stripStart?_eq_some]
  exact ⟨fun ⟨_, hk, he⟩ => he ▸ hk, fun hk => ⟨_, hk, rfl⟩⟩

/-! ## Sorting -/

/-- Ascending keys are told apart by which keys are among them. -/
theorem eq_of_pairwise {keys keys' : List Key} (h : keys.Pairwise (· < ·))
    (h' : keys'.Pairwise (· < ·)) (hm : ∀ k, k ∈ keys ↔ k ∈ keys') : keys = keys' := by
  refine List.Perm.eq_of_pairwise (fun a b _ _ => le_antisymm) (h.imp le_of_lt)
    (h'.imp le_of_lt) ?_
  exact (List.perm_ext_iff_of_nodup (nodup_of_pairwise h) (nodup_of_pairwise h')).mpr hm

theorem insert_perm (k : Key) (keys : List Key) : (insert k keys).Perm (k :: keys) := by
  induction keys with
  | nil => exact List.Perm.refl _
  | cons x rest ih =>
    unfold insert
    split
    · exact List.Perm.refl _
    · exact (ih.cons x).trans (List.Perm.swap k x rest)

theorem sort_perm (keys : List Key) : (sort keys).Perm keys := by
  induction keys with
  | nil => exact List.Perm.refl _
  | cons k rest ih => exact (insert_perm k _).trans (ih.cons k)

theorem insert_pairwise {k : Key} {keys : List Key} (h : keys.Pairwise (· ≤ ·)) :
    (insert k keys).Pairwise (· ≤ ·) := by
  induction keys with
  | nil => simp [insert]
  | cons x rest ih =>
    obtain ⟨hx, hr⟩ := List.pairwise_cons.mp h
    unfold insert
    split
    · rename_i hkx
      refine List.pairwise_cons.mpr ⟨?_, h⟩
      intro y hy
      rcases List.mem_cons.mp hy with rfl | hy
      · exact hkx
      · exact le_trans hkx (hx y hy)
    · rename_i hkx
      have hxk : x ≤ k := by
        rcases lt_trichotomy x k with h | rfl | h
        · exact le_of_lt h
        · exact absurd (lt_irrefl x) hkx
        · exact absurd (le_of_lt h) hkx
      refine List.pairwise_cons.mpr ⟨?_, ih hr⟩
      intro y hy
      rcases List.mem_cons.mp ((insert_perm k rest).mem_iff.mp hy) with rfl | hy
      · exact hxk
      · exact hx y hy

theorem sort_pairwise (keys : List Key) : (sort keys).Pairwise (· ≤ ·) := by
  induction keys with
  | nil => exact List.Pairwise.nil
  | cons k rest ih => exact insert_pairwise ih

/-- Distinct keys are sorted into strictly ascending order. -/
theorem sort_pairwise_lt {keys : List Key} (h : keys.Nodup) : (sort keys).Pairwise (· < ·) := by
  have hn : (sort keys).Nodup := (sort_perm keys).nodup_iff.mpr h
  refine (sort_pairwise keys).imp₂ ?_ hn
  intro a b hab hne
  rcases lt_trichotomy a b with h | h | h
  · exact h
  · exact absurd h hne
  · exact absurd h hab

/-- Keys in another order are sorted alike. -/
theorem sort_congr {keys others : List Key} (h : keys.Perm others) : sort keys = sort others :=
  List.Perm.eq_of_pairwise (fun _ _ _ _ => le_antisymm) (sort_pairwise _) (sort_pairwise _)
    ((sort_perm keys).trans (h.trans (sort_perm others).symm))

/-- Sorting gives the one ascending order. -/
theorem sort_eq_of_perm {keys sorted : List Key} (hp : keys.Perm sorted)
    (hs : sorted.Pairwise (· < ·)) : sort keys = sorted := by
  refine List.Perm.eq_of_pairwise (fun a b _ _ => le_antisymm) (sort_pairwise keys)
    (hs.imp le_of_lt) ((sort_perm keys).trans hp)

end Key

end BlobStore
