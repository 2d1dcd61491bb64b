import BlobStore.Disk.Path
import BlobStore.OrderedMap
import Mathlib.Data.List.Lex
import Mathlib.Data.String.Basic
import Mathlib.Data.Sum.Order
import Mathlib.Order.RelIso.Basic

/-!
# The order of keys, of names and of maps

The keys are strictly ordered by their segments, and so are the names on a disk. A map that is
changed by its own operations only has its entries in strictly ascending order, so it holds an entry
exactly if a look-up finds it.

## Main definitions

* `OrderedMap.Sorted`: the entries stand in strictly ascending order

## Main results

* `Key.isStrictTotalOrder`: keys are strictly and totally ordered
* `FileName.linearOrder`: so are the names on a disk
* `OrderedMap.Sorted.put`, `OrderedMap.Sorted.erase`: changes keep the order
* `OrderedMap.Sorted.mem_entries_iff`: entries and look-ups agree
* `Key.ordered_pairwise`, `Key.mem_ordered`: the distinct keys of a list
-/

namespace BlobStore

/-! ## Keys -/

namespace Key

theorem ext_segments {a b : Key} (h : a.segments = b.segments) : a = b := by
  cases a
  cases b
  exact congrArg Key.mk h

theorem lt_irrefl (a : Key) : ¬ a < a := fun h => LT.lt.ne (a := a.segments) h rfl

theorem lt_trans {a b c : Key} (hab : a < b) (hbc : b < c) : a < c :=
  LT.lt.trans (a := a.segments) hab hbc

theorem lt_trichotomy (a b : Key) : a < b ∨ a = b ∨ b < a := by
  by_cases h : a.segments = b.segments
  · exact Or.inr (Or.inl (ext_segments h))
  · rcases lt_or_gt_of_ne h with h | h
    · exact Or.inl h
    · exact Or.inr (Or.inr h)

theorem le_of_lt {a b : Key} (h : a < b) : a ≤ b := fun hba => lt_irrefl a (lt_trans h hba)

theorem le_trans {a b c : Key} (hab : a ≤ b) (hbc : b ≤ c) : a ≤ c := by
  intro hca
  rcases lt_trichotomy a b with h | h | h
  · exact hbc (lt_trans hca h)
  · exact hbc (h ▸ hca)
  · exact hab h

theorem le_antisymm {a b : Key} (hab : a ≤ b) (hba : b ≤ a) : a = b := by
  rcases lt_trichotomy a b with h | h | h
  · exact absurd h hba
  · exact h
  · exact absurd h hab

instance isStrictTotalOrder : IsStrictTotalOrder Key (· < ·) where
  irrefl := lt_irrefl
  trans _ _ _ := lt_trans
  trichotomous a b hab hba := by
    rcases lt_trichotomy a b with h | h | h
    · exact absurd h hab
    · exact h
    · exact absurd h hba

end Key

/-! ## Names -/

namespace FileName

/-- A name as a text or as numbers; the texts come first. -/
def form : FileName → String ⊕ₗ List ℕ
  | .text t => Sum.inlₗ t
  | .raw bytes => Sum.inrₗ (bytes.val.map UInt8.toNat)

theorem form_injective : Function.Injective form := by
  intro a b h
  cases a with
  | text t => cases b <;> simp_all [form]
  | raw bytes =>
    cases b with
    | text u => simp [form] at h
    | raw others =>
      have hnumbers := Sum.inr_injective (toLex.injective h)
      have hbytes := List.map_injective_iff.mpr (fun _ _ => UInt8.toNat_inj.mp) hnumbers
      exact congrArg raw (Subtype.ext hbytes)

theorem form_lt_iff {a b : FileName} : form a < form b ↔ a < b := by
  cases a with
  | text t =>
    cases b with
    | text u => exact Sum.Lex.inl_lt_inl_iff
    | raw bytes => exact iff_of_true (Sum.Lex.inl_lt_inr _ _) trivial
  | raw bytes =>
    cases b with
    | text u => exact iff_of_false Sum.Lex.not_inr_lt_inl id
    | raw others => exact Sum.Lex.inr_lt_inr_iff

instance isStrictTotalOrder : IsStrictTotalOrder FileName (· < ·) :=
  RelEmbedding.isStrictTotalOrder (s := (· < ·)) ⟨⟨form, form_injective⟩, form_lt_iff⟩

instance linearOrder : LinearOrder FileName := linearOrderOfSTO (· < ·)

end FileName

/-! ## Maps -/

namespace OrderedMap

section

variable {κ α : Type}

/-- The entries stand in strictly ascending order of their keys. -/
def Sorted [LT κ] (m : OrderedMap κ α) : Prop := m.keys.Pairwise (· < ·)

@[simp] theorem sorted_empty [LT κ] : (empty : OrderedMap κ α).Sorted := List.Pairwise.nil

variable [DecidableEq κ]

theorem find_isSome_iff (k : κ) (entries : List (κ × α)) :
    (find k entries).isSome ↔ k ∈ entries.map (·.1) := by
  induction entries with
  | nil => simp [find]
  | cons entry rest ih =>
    obtain ⟨x, w⟩ := entry
    by_cases hx : x = k
    · simp [find, hx]
    · simp [find, hx, ih, Ne.symm hx]

theorem mem_keys_iff (m : OrderedMap κ α) (k : κ) : k ∈ m.keys ↔ (m.get? k).isSome :=
  (find_isSome_iff k m.entries).symm

theorem mem_of_find {k : κ} {v : α} {entries : List (κ × α)} (h : find k entries = some v) :
    (k, v) ∈ entries := by
  induction entries with
  | nil => simp [find] at h
  | cons entry rest ih =>
    obtain ⟨x, w⟩ := entry
    by_cases hx : x = k
    · subst hx
      simp only [find, if_true, Option.some.injEq] at h
      simp [h]
    · simp only [find, if_neg hx] at h
      exact List.mem_cons_of_mem _ (ih h)

theorem mem_entries_of_get? {m : OrderedMap κ α} {k : κ} {v : α} (h : m.get? k = some v) :
    (k, v) ∈ m.entries := mem_of_find h

theorem get?_erase_eq_some {m : OrderedMap κ α} {k j : κ} {v : α} :
    (m.erase k).get? j = some v ↔ k ≠ j ∧ m.get? j = some v := by
  rw [get?_erase]
  split
  · simp_all
  · simp_all

theorem get?_put_eq_some [LT κ] [DecidableLT κ] {m : OrderedMap κ α} {k j : κ} {v w : α} :
    (m.put k v).get? j = some w ↔ (k = j ∧ v = w) ∨ (k ≠ j ∧ m.get? j = some w) := by
  rw [get?_put]
  split
  · simp_all
  · simp_all

theorem filter_insert [LT κ] [DecidableLT κ] (k : κ) (v : α) (entries : List (κ × α)) :
    (insert k v entries).filter (·.1 ≠ k) = entries.filter (·.1 ≠ k) := by
  induction entries with
  | nil => simp [insert]
  | cons entry rest ih =>
    obtain ⟨x, w⟩ := entry
    unfold insert
    split
    · rename_i h
      subst h
      simp
    · split
      · simp
      · by_cases hx : x = k <;> simp_all

@[simp] theorem erase_put [LT κ] [DecidableLT κ] (m : OrderedMap κ α) (k : κ) (v : α) :
    (m.put k v).erase k = m.erase k := congrArg OrderedMap.mk (filter_insert k v m.entries)

theorem Sorted.erase [LT κ] {m : OrderedMap κ α} (h : m.Sorted) (k : κ) : (m.erase k).Sorted :=
  h.sublist (List.filter_sublist.map _)

theorem Sorted.mem_entries_iff [LT κ] [IsStrictTotalOrder κ (· < ·)] {m : OrderedMap κ α}
    (h : m.Sorted) {k : κ} {v : α} : (k, v) ∈ m.entries ↔ m.get? k = some v := by
  refine ⟨?_, mem_entries_of_get?⟩
  intro hm
  obtain ⟨entries⟩ := m
  simp only [Sorted, keys, get?] at h hm ⊢
  induction entries with
  | nil => simp at hm
  | cons entry rest ih =>
    obtain ⟨x, w⟩ := entry
    obtain ⟨hx, hr⟩ := List.pairwise_cons.mp h
    rcases List.mem_cons.mp hm with he | hm
    · obtain ⟨rfl, rfl⟩ := Prod.mk.inj he
      simp [find]
    · have hlt : x < k := hx k (List.mem_map_of_mem (f := (·.1)) hm)
      have hne : x ≠ k := fun he => irrefl (r := (· < ·)) k (he ▸ hlt)
      simp [find, hne, ih hr hm]

variable [LT κ] [DecidableLT κ]

theorem keys_insert_subset {k : κ} {v : α} {entries : List (κ × α)} {j : κ}
    (h : j ∈ (insert k v entries).map (·.1)) : j = k ∨ j ∈ entries.map (·.1) := by
  rw [← find_isSome_iff, find_insert] at h
  by_cases hk : k = j
  · exact Or.inl hk.symm
  · rw [if_neg hk] at h
    exact Or.inr ((find_isSome_iff j entries).mp h)

variable [IsStrictTotalOrder κ (· < ·)]

theorem pairwise_insert {k : κ} {v : α} {entries : List (κ × α)}
    (h : (entries.map (·.1)).Pairwise (· < ·)) :
    ((insert k v entries).map (·.1)).Pairwise (· < ·) := by
  induction entries with
  | nil => simp [insert]
  | cons entry rest ih =>
    obtain ⟨x, w⟩ := entry
    obtain ⟨hx, hr⟩ := List.pairwise_cons.mp h
    unfold insert
    split
    · rename_i he
      subst he
      exact h
    · rename_i hne
      split
      · rename_i hlt
        refine List.pairwise_cons.mpr ⟨?_, h⟩
        intro j hj
        rcases List.mem_cons.mp hj with rfl | hj
        · exact hlt
        · exact trans_of (· < ·) hlt (hx j hj)
      · rename_i hnlt
        have hxk : x < k := by
          rcases trichotomous_of (· < ·) x k with h | h | h
          · exact h
          · exact absurd h hne
          · exact absurd h hnlt
        refine List.pairwise_cons.mpr ⟨?_, ih hr⟩
        intro j hj
        rcases keys_insert_subset hj with rfl | hj
        · exact hxk
        · exact hx j hj

theorem Sorted.put {m : OrderedMap κ α} (h : m.Sorted) (k : κ) (v : α) : (m.put k v).Sorted :=
  pairwise_insert h

/-- The place of an entry: a new value is put there, and a removal leaves the others. -/
theorem Sorted.split {m : OrderedMap κ α} (h : m.Sorted) {k : κ} {v : α} (hk : m.get? k = some v) :
    ∃ before behind, m.entries = before ++ (k, v) :: behind ∧
      (∀ w, (m.put k w).entries = before ++ (k, w) :: behind) ∧
      (m.erase k).entries = before ++ behind := by
  obtain ⟨entries⟩ := m
  simp only [Sorted, keys, get?, OrderedMap.put, OrderedMap.erase] at h hk ⊢
  induction entries with
  | nil => simp [find] at hk
  | cons entry rest ih =>
    obtain ⟨x, w⟩ := entry
    obtain ⟨hx, hr⟩ := List.pairwise_cons.mp h
    by_cases he : x = k
    · subst he
      obtain rfl : w = v := by simpa [find] using hk
      refine ⟨[], rest, rfl, fun u => by simp [insert], ?_⟩
      have hne : rest.filter (·.1 ≠ x) = rest := by
        apply List.filter_eq_self.mpr
        intro entry hm
        have hlt : x < entry.1 := hx entry.1 (List.mem_map_of_mem hm)
        have hne : entry.1 ≠ x := fun heq => irrefl (r := (· < ·)) x (heq ▸ hlt)
        simpa using hne
      simpa using hne
    · have hfind : find k rest = some v := by simpa [find, he] using hk
      obtain ⟨before, behind, hall, hput, herase⟩ := ih hr hfind
      have hlt : ¬ k < x :=
        asymm_of (· < ·) (hx k ((find_isSome_iff k rest).mp (by simp [hfind])))
      refine ⟨(x, w) :: before, behind, by simp [hall], fun u => ?_, ?_⟩
      · simp [insert, he, hlt, hput u]
      · simpa [he] using herase

end

end OrderedMap

/-! ## Lists of keys -/

namespace Key

theorem mem_place {k j : Key} {keys : List Key} : j ∈ place k keys ↔ j = k ∨ j ∈ keys := by
  induction keys with
  | nil => simp [place]
  | cons x rest ih =>
    unfold place
    split
    · rename_i h
      subst h
      simp
    · split
      · simp
      · simp only [List.mem_cons, ih]
        tauto

theorem place_pairwise {k : Key} {keys : List Key} (h : keys.Pairwise (· < ·)) :
    (place k keys).Pairwise (· < ·) := by
  induction keys with
  | nil => simp [place]
  | cons x rest ih =>
    obtain ⟨hx, hr⟩ := List.pairwise_cons.mp h
    unfold place
    split
    · exact h
    · rename_i hne
      split
      · rename_i hlt
        refine List.pairwise_cons.mpr ⟨?_, h⟩
        intro j hj
        rcases List.mem_cons.mp hj with rfl | hj
        · exact hlt
        · exact lt_trans hlt (hx j hj)
      · rename_i hnlt
        have hxk : x < k := by
          rcases lt_trichotomy x k with h | h | h
          · exact h
          · exact absurd h.symm hne
          · exact absurd h hnlt
        refine List.pairwise_cons.mpr ⟨?_, ih hr⟩
        intro j hj
        rcases mem_place.mp hj with rfl | hj
        · exact hxk
        · exact hx j hj

theorem mem_ordered {k : Key} {keys : List Key} : k ∈ ordered keys ↔ k ∈ keys := by
  induction keys with
  | nil => simp [ordered]
  | cons x rest ih =>
    rw [List.mem_cons, ← ih]
    exact mem_place

/-- The keys of a lock stand in strictly ascending order, each once. -/
theorem ordered_pairwise (keys : List Key) : (ordered keys).Pairwise (· < ·) := by
  induction keys with
  | nil => exact List.Pairwise.nil
  | cons x rest ih => exact place_pairwise ih

theorem nodup_of_pairwise {keys : List Key} (h : keys.Pairwise (· < ·)) : keys.Nodup := by
  apply h.imp
  intro a b hab he
  subst he
  exact lt_irrefl a hab

end Key

end BlobStore
