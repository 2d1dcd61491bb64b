import BlobStore.Database.File
import BlobStore.Proofs.Memory
import BlobStore.Proofs.Observation
import Mathlib.Data.List.Nodup

/-!
# Databases answer as memories do

The rows of a database are found by the texts of keys. As long as every key that is used is the one
that its text is read back as, rows and keys correspond: the contents of a database change as the
requests say, and the texts between the two bounds of a listing are those of the nested keys.

## Main definitions

* `Key.Textual`, `Request.Textual`: keys that are read back from their texts
* `Database.contents`: the bytes under every key
* `Database.Mirrors`: a database and a memory that store the same
* `DatabaseFile.Accepts`: what changes can be written to a file

## Main results

* `Database.contents_perform`: a database changes its contents as the request says
* `Database.mem_select_iff`: the bounds of a listing fit exactly
* `Database.answer_of_error`, `DatabaseFile.answer_of_error`: failed requests change nothing
* `Database.Mirrors.perform`: both answer a request alike and store the same afterwards
-/

namespace BlobStore

/-! ## Keys and texts -/

/-- A key that is read back from its text: no segment contains the delimiter, and the text is not
empty. -/
def Key.Textual (k : Key) : Prop := k.Plain ∧ k ≠ Key.root ∧ k ≠ ⟨[""]⟩

instance Key.decidableTextual (k : Key) : Decidable k.Textual :=
  inferInstanceAs (Decidable (_ ∧ _ ∧ _))

/-- The keys of a request are read back from their texts; a listing may be of the root. -/
def Request.Textual : Request → Prop
  | .list scope => scope.Textual ∨ scope = Key.root
  | .contains key | .save key _ | .value key | .delete key | .metadata key => key.Textual
  | .move source destination => source.Textual ∧ destination.Textual

instance Request.decidableTextual : (r : Request) → Decidable r.Textual
  | .list scope => inferInstanceAs (Decidable (scope.Textual ∨ scope = Key.root))
  | .contains key | .save key _ | .value key | .delete key | .metadata key =>
    inferInstanceAs (Decidable key.Textual)
  | .move source destination =>
    inferInstanceAs (Decidable (source.Textual ∧ destination.Textual))

theorem Key.Textual.parse_text {k : Key} (h : k.Textual) : Key.parse k.text = k :=
  Key.parse_text h.1 h.2.1 h.2.2

theorem Key.Textual.text_inj {a b : Key} (ha : a.Textual) (hb : b.Textual) (h : a.text = b.text) :
    a = b := by
  rw [← ha.parse_text, ← hb.parse_text, h]

theorem Key.Textual.text_eq_iff {a b : Key} (ha : a.Textual) (hb : b.Textual) :
    a.text = b.text ↔ a = b := ⟨ha.text_inj hb, congrArg Key.text⟩

/-! ## The bounds of a listing -/

theorem eq_delimiter_of_between {c : Char} (hl : ¬ c < '/') (hu : c < '0') : c = '/' := by
  apply Char.toNat_inj.mp
  have hl' : ¬ c.toNat < 47 := hl
  have hu' : c.toNat < 48 := hu
  exact Nat.le_antisymm (Nat.lt_succ_iff.mp hu') (Nat.not_lt.mp hl')

/-- The texts that begin with some text and a delimiter are those between two bounds: no character
stands between the delimiter and `0`. -/
theorem between_iff (start text : List Char) :
    (¬ text < start ++ ['/'] ∧ text < start ++ ['0']) ↔ ∃ rest, text = start ++ '/' :: rest := by
  induction start generalizing text with
  | nil =>
    cases text with
    | nil => simp
    | cons c rest =>
      simp only [List.nil_append, List.cons_lt_cons_iff, List.not_lt_nil, and_false, or_false,
        List.cons.injEq]
      constructor
      · rintro ⟨hl, hu⟩
        exact ⟨rest, eq_delimiter_of_between hl hu, rfl⟩
      · rintro ⟨rest, rfl, rfl⟩
        exact ⟨by decide, by decide⟩
  | cons x start ih =>
    cases text with
    | nil => simp
    | cons c rest =>
      simp only [List.cons_append, List.cons_lt_cons_iff, List.cons.injEq]
      constructor
      · rintro ⟨hl, hu⟩
        obtain ⟨hl, hl'⟩ := not_or.mp hl
        rcases hu with hu | ⟨rfl, hu⟩
        · exact absurd hu hl
        · obtain ⟨t, ht⟩ := (ih rest).mp ⟨fun h => hl' ⟨rfl, h⟩, hu⟩
          exact ⟨t, rfl, ht⟩
      · rintro ⟨t, rfl, ht⟩
        obtain ⟨hl, hu⟩ := (ih rest).mpr ⟨t, ht⟩
        refine ⟨?_, Or.inr ⟨rfl, hu⟩⟩
        rintro (h | ⟨-, h⟩)
        · exact lt_irrefl c h
        · exact hl h

namespace Database

variable {d : Database}

theorem select_root : d.select Key.root = d.rows.keys := if_pos (by rfl)

/-- Of the rows of keys without delimiters in their segments, a listing under such a key selects
those of the keys under it, unless it is the root. -/
theorem mem_select_of_ne_root {scope k : Key} (hk : k.Plain) (hs : scope.Plain)
    (hr : scope ≠ Key.root) :
    k.text ∈ d.select scope ↔ k.text ∈ d.rows.keys ∧ k.Under scope := by
  unfold select
  have hroot : scope.isRoot = false := by
    cases h : scope.segments with
    | nil => exact absurd (Key.ext_segments h) hr
    | cons segment rest => simp [Key.isRoot, h]
  rw [hroot, if_neg (by simp), List.mem_filter, Key.under_iff_text hk hs hr]
  apply and_congr_right
  intro _
  rw [decide_eq_true_iff]
  refine Iff.trans ?_ (between_iff scope.text.toList k.text.toList)
  have hlow : (scope.text ++ "/").toList = scope.text.toList ++ ['/'] := String.toList_append
  have hhigh : (scope.text ++ "0").toList = scope.text.toList ++ ['0'] := String.toList_append
  rw [← hlow, ← hhigh]
  exact Iff.rfl

/-- Of the rows of textual keys, a listing under a textual key selects those of the keys under it,
and a listing of the root selects all. -/
theorem mem_select_iff {scope k : Key} (hk : k.Textual) (hs : scope.Textual ∨ scope = Key.root) :
    k.text ∈ d.select scope ↔ k.text ∈ d.rows.keys ∧ k.Under scope := by
  rcases hs with hs | rfl
  · exact mem_select_of_ne_root hk.1 hs.1 hs.2.1
  · rw [select_root]
    refine (and_iff_left ?_).symm
    exact Key.under_iff.mpr ⟨k.segments, fun hn => hk.2.1 (Key.ext_segments hn), rfl⟩

theorem select_nodup (h : d.rows.Sorted) (scope : Key) : (d.select scope).Nodup := by
  have hrows : d.rows.keys.Nodup := h.imp fun hlt => ne_of_lt hlt
  unfold select
  split
  · exact hrows
  · exact hrows.filter _

/-! ## Contents -/

/-- The bytes in the row of a text. -/
def stored (d : Database) (text : String) : Option Bytes := (d.rows.get? text).map (·.bytes)

/-- The bytes under every key, found by its text. -/
def contents (d : Database) : Contents := fun k => d.stored k.text

theorem rows_write (text : String) (bytes : Bytes) (now : Time) :
    ∃ row : Row, row.bytes = bytes ∧ (d.write text bytes now).rows = d.rows.put text row := by
  unfold write
  split
  · exact ⟨_, rfl, rfl⟩
  · exact ⟨_, rfl, rfl⟩

/-- Removing a row that is not there removes nothing. -/
theorem rows_erase (text : String) : (d.erase text).rows = d.rows.erase text := by
  unfold erase
  split
  · rfl
  · rename_i hn
    refine congrArg OrderedMap.mk (List.filter_eq_self.mpr ?_).symm
    intro entry hm
    apply decide_eq_true
    rintro rfl
    have hk := (OrderedMap.mem_keys_iff d.rows entry.1).mp (List.mem_map_of_mem hm)
    rw [hn] at hk
    cases hk

theorem rename_eq_none {source destination : String} (h : d.rows.get? source = none) (now : Time) :
    d.rename source destination now = none := by
  simp [rename, h]

/-- A row that is there is put under another text, in place of the row that has it. -/
theorem rows_rename {source destination : String} {old : Row} (h : d.rows.get? source = some old)
    (hne : source ≠ destination) (now : Time) :
    ∃ (after : Database) (row : Row), d.rename source destination now = some after ∧
      row.bytes = old.bytes ∧
      after.rows = ((d.rows.erase destination).erase source).put destination row := by
  have hold : (d.erase destination).rows.get? source = some old := by
    rw [rows_erase, OrderedMap.get?_erase, if_neg (Ne.symm hne), h]
  unfold rename
  simp only [h, hold]
  exact ⟨_, { old with modified := millis now }, rfl, rfl, by rw [rows_erase]⟩

theorem stored_of_put {rows : OrderedMap String Row} {text : String} {row : Row}
    (h : d.rows = rows.put text row) (other : String) :
    d.stored other = if text = other then some row.bytes else (rows.get? other).map (·.bytes) := by
  unfold stored
  rw [h, OrderedMap.get?_put]
  split <;> rfl

/-- The bytes of a row that is put under another text are those of the key with that text. -/
theorem contents_rename {source destination k : Key} (hs : source.Textual)
    (hd : destination.Textual) (hk : k.Textual) (hsd : source ≠ destination) {old : Row}
    (h : d.rows.get? source.text = some old) (now : Time) :
    ∃ after, d.rename source.text destination.text now = some after ∧
      after.contents k =
        Function.update (Function.update d.contents source none) destination (some old.bytes)
          k := by
  have hne : source.text ≠ destination.text := fun he => hsd (hs.text_inj hd he)
  obtain ⟨after, row, hafter, hbytes, hrows⟩ := rows_rename h hne now
  refine ⟨after, hafter, ?_⟩
  have hstored := stored_of_put hrows k.text
  simp only [OrderedMap.get?_erase, hs.text_eq_iff hk, hd.text_eq_iff hk] at hstored
  simp only [contents, hstored, Function.update_apply, hbytes]
  by_cases hdk : destination = k
  · simp [hdk]
  · by_cases hsk : source = k
    · simp [hdk, hsk, Ne.symm hdk]
    · simp [hdk, hsk, Ne.symm hdk, Ne.symm hsk, stored]

/-- The contents of a database change as the request says, if it is not refused and the keys are
read back from their texts. -/
theorem contents_perform {r : Request} (hr : r.Textual) (now : Time) {k : Key} (hk : k.Textual) :
    (d.perform r now).2.contents k = r.effect d.contents k := by
  cases r with
  | contains _ | list _ | value _ | metadata _ => rfl
  | save key content =>
    simp only [perform, Request.effect]
    cases content.drain with
    | ok bytes =>
      obtain ⟨row, rfl, hrows⟩ := rows_write (d := d) key.text bytes now
      simp only [contents, stored_of_put hrows, hr.text_eq_iff hk, Function.update_apply, eq_comm]
      rfl
    | error e => rfl
  | move source destination =>
    obtain ⟨hs, hd⟩ := hr
    simp only [perform, Request.effect]
    cases h : d.rows.get? source.text with
    | none =>
      have hc : d.rows.contains source.text = false := by simp [OrderedMap.contains, h]
      have hsource : d.contents source = none := by simp [contents, stored, h]
      simp [hc, rename_eq_none h, hsource]
    | some old =>
      have hc : d.rows.contains source.text = true := by simp [OrderedMap.contains, h]
      have hsource : d.contents source = some old.bytes := by simp [contents, stored, h]
      rw [hsource]
      by_cases hsd : source = destination
      · subst hsd
        simp only [if_true, hc, Function.update_apply]
        split
        · rename_i he
          rw [he, hsource]
        · rfl
      · obtain ⟨after, hafter, hcontents⟩ := contents_rename hs hd hk hsd h now
        simp only [if_neg hsd, hafter]
        exact hcontents
  | delete key =>
    simp only [perform, Request.effect, Function.update_apply]
    have herase : (d.rows.erase key.text).get? k.text =
        if key = k then none else d.rows.get? k.text := by
      simp only [OrderedMap.get?_erase, hr.text_eq_iff hk]
    split
    · simp only [contents, stored, rows_erase, herase]
      by_cases hkk : key = k
      · simp [hkk]
      · simp [hkk, Ne.symm hkk]
    · rename_i hc
      split
      · rename_i hkk
        subst hkk
        simpa [contents, stored, OrderedMap.contains] using hc
      · rfl

/-! ## Rows -/

theorem mem_keys_put {rows : OrderedMap String Row} {text other : String} {row : Row}
    (h : other ∈ (rows.put text row).keys) : other = text ∨ other ∈ rows.keys :=
  OrderedMap.keys_insert_subset h

theorem mem_keys_erase {rows : OrderedMap String Row} {text other : String}
    (h : other ∈ (rows.erase text).keys) : other ∈ rows.keys := by
  rw [OrderedMap.mem_keys_iff, OrderedMap.get?_erase] at h
  split at h
  · cases h
  · exact (OrderedMap.mem_keys_iff rows other).mpr h

theorem sorted_rename {source destination : String} {now : Time} {after : Database}
    (h : d.rows.Sorted) (hr : d.rename source destination now = some after) :
    after.rows.Sorted := by
  unfold rename at hr
  split at hr
  · cases hr
  · have hcleared : (d.erase destination).rows.Sorted := rows_erase (d := d) _ ▸ h.erase _
    simp only at hr
    split at hr
    · cases hr
      exact (hcleared.erase _).put _ _
    · cases hr
      exact hcleared

/-- The rows stay in order. -/
theorem sorted_perform (h : d.rows.Sorted) (r : Request) (now : Time) :
    (d.perform r now).2.rows.Sorted := by
  cases r with
  | contains _ | list _ | value _ | metadata _ => exact h
  | save key content =>
    simp only [perform]
    cases content.drain with
    | error e => exact h
    | ok bytes =>
      obtain ⟨row, -, hrows⟩ := rows_write (d := d) key.text bytes now
      simp only [hrows]
      exact h.put _ _
  | move source destination =>
    simp only [perform]
    split
    · split <;> exact h
    · cases hr : d.rename source.text destination.text now with
      | none => exact h
      | some after => exact sorted_rename h hr
  | delete key =>
    simp only [perform]
    split
    · simp only [rows_erase]
      exact h.erase _
    · exact h

/-- A new row has the text of a key that the request names. -/
theorem mem_keys_perform {r : Request} (hr : r.Textual) (now : Time) {text : String}
    (ht : text ∈ (d.perform r now).2.rows.keys) :
    text ∈ d.rows.keys ∨ ∃ k : Key, k.Textual ∧ k.text = text := by
  cases r with
  | contains _ | list _ | value _ | metadata _ => exact Or.inl ht
  | save key content =>
    simp only [perform] at ht
    cases hc : content.drain with
    | error e =>
      simp only [hc] at ht
      exact Or.inl ht
    | ok bytes =>
      obtain ⟨row, -, hrows⟩ := rows_write (d := d) key.text bytes now
      simp only [hc, hrows] at ht
      rcases mem_keys_put ht with rfl | ht
      · exact Or.inr ⟨key, hr, rfl⟩
      · exact Or.inl ht
  | move source destination =>
    obtain ⟨hs, hd⟩ := hr
    simp only [perform] at ht
    split at ht
    · split at ht <;> exact Or.inl ht
    · rename_i hsd
      cases hget : d.rows.get? source.text with
      | none =>
        rw [rename_eq_none hget] at ht
        exact Or.inl ht
      | some old =>
        have hne : source.text ≠ destination.text := fun he => hsd (hs.text_inj hd he)
        obtain ⟨after, row, hafter, -, hrows⟩ := rows_rename hget hne now
        simp only [hafter, hrows] at ht
        rcases mem_keys_put ht with rfl | ht
        · exact Or.inr ⟨destination, hd, rfl⟩
        · exact Or.inl (mem_keys_erase (mem_keys_erase ht))
  | delete key =>
    simp only [perform] at ht
    split at ht
    · rw [rows_erase] at ht
      exact Or.inl (mem_keys_erase ht)
    · exact Or.inl ht

theorem mem_keys_iff (d : Database) (text : String) :
    text ∈ d.rows.keys ↔ (d.stored text).isSome := by
  rw [OrderedMap.mem_keys_iff, stored, Option.isSome_map]

/-- A request that fails leaves the rows and the file as they were. -/
theorem perform_of_error {d : Database} {r : Request} {now : Time} {e : StorageError}
    (h : (d.perform r now).1.result = .error e) : (d.perform r now).2 = d := by
  cases r with
  | contains _ | list _ | value _ | metadata _ => rfl
  | save key content =>
    simp only [perform] at h ⊢
    cases hc : content.drain with
    | error e => rfl
    | ok bytes => simp [hc, Reply.ok] at h
  | move source destination =>
    simp only [perform] at h ⊢
    split
    · split <;> rfl
    · rename_i hne
      rw [if_neg hne] at h
      cases hm : d.rename source.text destination.text now with
      | none => rfl
      | some after => simp [hm, Reply.ok] at h
  | delete key =>
    simp only [perform] at h ⊢
    split
    · rename_i hc
      simp [hc, Reply.ok] at h
    · rfl

/-- An answer that counts no change leaves the database as it was. -/
theorem perform_of_changes {d : Database} {r : Request} {now : Time}
    (h : (d.perform r now).2.changes = d.changes) : (d.perform r now).2 = d := by
  cases r with
  | contains _ | list _ | value _ | metadata _ => rfl
  | save key content =>
    simp only [perform] at h ⊢
    cases hc : content.drain with
    | error e => rfl
    | ok bytes =>
      exfalso
      simp only [hc, write] at h
      split at h <;> simp at h
  | move source destination =>
    simp only [perform] at h ⊢
    split
    · split <;> rfl
    · rename_i hne
      rw [if_neg hne] at h
      cases hr : d.rename source.text destination.text now with
      | none => rfl
      | some after =>
        exfalso
        simp only [hr] at h
        unfold rename at hr
        split at hr
        · cases hr
        · simp only at hr
          split at hr <;> cases hr <;> simp at h
  | delete key =>
    simp only [perform] at h ⊢
    split
    · rename_i hcontains
      exfalso
      rw [if_pos hcontains] at h
      obtain ⟨row, hrow⟩ := Option.isSome_iff_exists.mp hcontains
      simp [erase, hrow] at h
    · rfl

/-! ## Refused requests -/

theorem answer_of_refusal {r : Request} {now : Time} {reason : String}
    (h : d.refusal? now r = some reason) :
    d.answer r now = (.error (.backend r.subject reason), d) := by
  unfold answer
  rw [h]

theorem answer_of_accepted {r : Request} {now : Time} (h : d.refusal? now r = none) :
    d.answer r now = d.perform r now := by
  unfold answer
  rw [h]

/-- A request is refused, and nothing changes, or it is performed. -/
theorem answer_cases (d : Database) (r : Request) (now : Time) :
    (∃ reason, d.answer r now = (.error (.backend r.subject reason), d)) ∨
      d.answer r now = d.perform r now := by
  cases h : d.refusal? now r with
  | some reason => exact Or.inl ⟨reason, answer_of_refusal h⟩
  | none => exact Or.inr (answer_of_accepted h)

theorem sorted_answer (h : d.rows.Sorted) (r : Request) (now : Time) :
    (d.answer r now).2.rows.Sorted := by
  rcases d.answer_cases r now with ⟨reason, he⟩ | he <;> rw [he]
  · exact h
  · exact sorted_perform h r now

/-- A request that fails leaves a database as it was. -/
theorem answer_of_error {r : Request} {now : Time} {e : StorageError}
    (h : (d.answer r now).1.result = .error e) : (d.answer r now).2 = d := by
  rcases d.answer_cases r now with ⟨reason, he⟩ | he <;> rw [he] at h ⊢
  exact perform_of_error h

/-- An answer that counts no change leaves the database as it was. -/
theorem answer_of_changes {r : Request} {now : Time}
    (h : (d.answer r now).2.changes = d.changes) : (d.answer r now).2 = d := by
  rcases d.answer_cases r now with ⟨reason, he⟩ | he <;> rw [he] at h ⊢
  exact perform_of_changes h

/-! ## A database beside a memory -/

/-- A database and a memory that store the same bytes under the same keys. Every text and every key
that is stored belongs to a key that is read back from its text. -/
structure Mirrors (d : Database) (m : Memory) : Prop where
  rows : d.rows.Sorted
  values : m.Sorted
  texts : ∀ text ∈ d.rows.keys, ∃ k : Key, k.Textual ∧ k.text = text
  keys : ∀ k, (m.contents k).isSome → k.Textual
  contents : ∀ k, k.Textual → d.contents k = m.contents k

theorem mirrors_empty : Mirrors empty Memory.empty where
  rows := OrderedMap.sorted_empty
  values := OrderedMap.sorted_empty
  texts text h := by simp [empty, OrderedMap.empty, OrderedMap.keys] at h
  keys k h := by simp at h
  contents k _ := rfl

namespace Mirrors

variable {m : Memory}

/-- Both list the same keys, in the same order. -/
theorem list_eq (h : d.Mirrors m) {scope : Key} (hs : scope.Textual ∨ scope = Key.root) :
    Key.sort ((d.select scope).map Key.parse) = m.nested scope := by
  have htext : ∀ text ∈ d.select scope, ∃ k : Key, k.Textual ∧ k.text = text := by
    intro text ht
    apply h.texts text
    unfold select at ht
    split at ht
    · exact ht
    · exact (List.mem_filter.mp ht).1
  refine Key.sort_eq_of_perm ?_ (h.values.nested_pairwise scope)
  refine (List.perm_ext_iff_of_nodup ?_ ?_).mpr ?_
  · exact (select_nodup h.rows scope).map Key.parse_injective
  · exact Key.nodup_of_pairwise (h.values.nested_pairwise scope)
  · intro k
    rw [h.values.mem_nested, List.mem_map]
    constructor
    · rintro ⟨text, ht, rfl⟩
      obtain ⟨k, hk, rfl⟩ := htext text ht
      obtain ⟨hm, hu⟩ := (mem_select_iff hk hs).mp ht
      rw [hk.parse_text, ← h.contents k hk]
      exact ⟨(mem_keys_iff d k.text).mp hm, hu⟩
    · rintro ⟨hm, hu⟩
      have hk := h.keys k hm
      refine ⟨k.text, (mem_select_iff hk hs).mpr ⟨?_, hu⟩, hk.parse_text⟩
      rw [mem_keys_iff]
      have he : d.stored k.text = m.contents k := h.contents k hk
      rw [he]
      exact hm

/-- A row is there exactly if a value is, and they hold the same bytes. -/
theorem get?_cases (h : d.Mirrors m) {k : Key} (hk : k.Textual) :
    (d.rows.get? k.text = none ∧ m.values.get? k = none) ∨
      ∃ row v, d.rows.get? k.text = some row ∧ m.values.get? k = some v ∧ row.bytes = v.bytes := by
  have he : (d.rows.get? k.text).map (·.bytes) = (m.values.get? k).map (·.bytes) :=
    h.contents k hk
  cases hrow : d.rows.get? k.text with
  | none =>
    rw [hrow] at he
    exact Or.inl ⟨rfl, Option.map_eq_none_iff.mp he.symm⟩
  | some row =>
    rw [hrow] at he
    obtain ⟨v, hv, hb⟩ := Option.map_eq_some_iff.mp he.symm
    exact Or.inr ⟨row, v, rfl, hv, hb.symm⟩

/-- Both answer a request alike. -/
theorem shown_eq (h : d.Mirrors m) {r : Request} (hr : r.Textual) (now now' : Time) :
    (d.perform r now).1.result.map r.shown = (m.answer r now').1.result.map r.shown := by
  cases r with
  | list scope => simp only [perform, Memory.answer, h.list_eq hr]
  | save key content =>
    simp only [perform, Memory.answer]
    cases content.drain <;> rfl
  | contains key =>
    rcases h.get?_cases hr with ⟨hrow, hv⟩ | ⟨row, v, hrow, hv, -⟩
    · simp [perform, Memory.answer, OrderedMap.contains, hrow, hv]
    · simp [perform, Memory.answer, OrderedMap.contains, hrow, hv]
  | value key =>
    rcases h.get?_cases hr with ⟨hrow, hv⟩ | ⟨row, v, hrow, hv, hb⟩
    · simp [perform, Memory.answer, hrow, hv, Reply.orNotFound]
    · simp [perform, Memory.answer, hrow, hv, hb, Reply.orNotFound]
  | move source destination =>
    obtain ⟨hs, hd⟩ := hr
    rcases h.get?_cases hs with ⟨hrow, hv⟩ | ⟨row, v, hrow, hv, -⟩
    · simp [perform, Memory.answer, Memory.rename, OrderedMap.contains, hrow, hv,
        rename_eq_none hrow]
    · by_cases hsd : source = destination
      · subst hsd
        simp [perform, Memory.answer, Memory.rename, OrderedMap.contains, hv, hrow]
      · have hne : source.text ≠ destination.text := fun he => hsd (hs.text_inj hd he)
        obtain ⟨after, -, hafter, -⟩ := rows_rename hrow hne now
        simp [perform, Memory.answer, Memory.rename, hv, hsd, hafter]
  | delete key =>
    rcases h.get?_cases hr with ⟨hrow, hv⟩ | ⟨row, v, hrow, hv, -⟩
    · simp [perform, Memory.answer, OrderedMap.contains, hrow, hv]
    · simp [perform, Memory.answer, OrderedMap.contains, hrow, hv]
  | metadata key =>
    rcases h.get?_cases hr with ⟨hrow, hv⟩ | ⟨row, v, hrow, hv, hb⟩
    · simp [perform, Memory.answer, hrow, hv, Reply.orNotFound]
    · simp [perform, Memory.answer, hrow, hv, hb, Reply.orNotFound, Reply.ok, Except.map,
        Request.shown, Meta.size, Meta.read, Database.describe, Memory.describe]

/-- The keys that a request can bring into use. -/
theorem textual_of_effect {r : Request} (hr : r.Textual) {c : Contents} {k : Key}
    (h : (r.effect c k).isSome) (hc : (c k).isSome → k.Textual) : k.Textual := by
  by_cases hk : k ∈ r.named
  · cases r with
    | list scope => exact hc h
    | move source destination =>
      rcases List.mem_cons.mp hk with rfl | hk
      · exact hr.1
      · exact List.mem_singleton.mp hk ▸ hr.2
    | contains key | save key _ | value key | delete key | metadata key =>
      exact List.mem_singleton.mp hk ▸ hr
  · rw [Request.effect_of_not_mem hk] at h
    exact hc h

theorem textual_of_named {r : Request} (hr : r.Textual) (hl : ∀ scope, r ≠ .list scope) {k : Key}
    (hk : k ∈ r.named) : k.Textual := by
  cases r with
  | list scope => exact absurd rfl (hl scope)
  | move source destination =>
    rcases List.mem_cons.mp hk with rfl | hk
    · exact hr.1
    · exact List.mem_singleton.mp hk ▸ hr.2
  | contains key | save key _ | value key | delete key | metadata key =>
    exact List.mem_singleton.mp hk ▸ hr

/-- Both answer a request that is not refused alike, and store the same afterwards. -/
theorem perform (h : d.Mirrors m) {r : Request} (hr : r.Textual) (now now' : Time) :
    (d.perform r now).1.result.map r.shown = (m.answer r now').1.result.map r.shown ∧
      (d.perform r now).2.Mirrors (m.answer r now').2 := by
  refine ⟨h.shown_eq hr now now', sorted_perform h.rows r now, h.values.answer r now', ?_, ?_, ?_⟩
  · intro text ht
    rcases mem_keys_perform hr now ht with ht | hk
    · exact h.texts text ht
    · exact hk
  · intro k hk
    rw [Memory.contents_answer] at hk
    exact textual_of_effect hr hk (h.keys k)
  · intro k hk
    rw [Memory.contents_answer, contents_perform hr now hk]
    by_cases hl : ∃ scope, r = .list scope
    · obtain ⟨scope, rfl⟩ := hl
      exact h.contents k hk
    · refine Request.effect_congr ?_ (h.contents k hk)
      intro j hj
      exact h.contents j (textual_of_named hr (fun scope hs => hl ⟨scope, hs⟩) hj)

end Mirrors

end Database

/-! ## Files -/

namespace DatabaseFile

/-- What changes can be written to a file: it is writable and still at its place, and nothing is in
the way of a journal. -/
def Accepts (f : DatabaseFile) (d : Disk) : Prop := f.writable ∧ f.isAtPlace d ∧ f.canJournal d

instance decidableAccepts (f : DatabaseFile) (d : Disk) : Decidable (f.Accepts d) :=
  inferInstanceAs (Decidable (_ ∧ _ ∧ _))

variable {f : DatabaseFile} {d : Disk}

theorem Accepts.commit (h : f.Accepts d) (database : Database) (now : Time) :
    ∃ d', f.commit database now d = .ok d' := by
  obtain ⟨hwritable, hplace, hjournal⟩ := h
  unfold DatabaseFile.commit
  rw [hwritable, hplace, hjournal]
  exact ⟨_, rfl⟩

/-- A file answers as its database does and holds the database after it, or fails and everything
stays as it was. -/
theorem answer_cases (f : DatabaseFile) (path : String) (r : Request) (now : Time) (d : Disk)
    (database : Database) :
    ((f.answer path r now (d, database)).1 = (database.answer r now).1 ∧
        (f.answer path r now (d, database)).2.2 = (database.answer r now).2) ∨
      ∃ e, f.answer path r now (d, database) = (.error e, d, database) := by
  by_cases hchanges : (database.answer r now).2.changes = database.changes
  · left
    simp [DatabaseFile.answer, Database.answer_of_changes hchanges]
  · cases hcommit : f.commit (database.answer r now).2 now d with
    | ok d' =>
      left
      simp [DatabaseFile.answer, hchanges, hcommit]
    | error e =>
      right
      simp only [DatabaseFile.answer, if_neg hchanges, hcommit]
      exact ⟨_, rfl⟩

/-- A request that fails leaves the file and the database in it as they were. -/
theorem answer_of_error {path : String} {r : Request} {now : Time} {s : Disk × Database}
    {e : StorageError} (h : (f.answer path r now s).1.result = .error e) :
    (f.answer path r now s).2 = s := by
  obtain ⟨d, database⟩ := s
  unfold DatabaseFile.answer at h ⊢
  simp only at h ⊢
  split
  · rfl
  · rename_i hchanges
    rw [if_neg hchanges] at h
    cases hcommit : f.commit (database.answer r now).2 now d with
    | error e => rfl
    | ok d' =>
      rw [hcommit] at h
      exact absurd (congrArg Database.changes (Database.answer_of_error h)) hchanges

/-- A file that accepts changes answers as its database does, and holds the database after it. -/
theorem answer_eq (h : f.Accepts d) (path : String) (r : Request) (now : Time)
    (database : Database) :
    (f.answer path r now (d, database)).1 = (database.answer r now).1 ∧
      (f.answer path r now (d, database)).2.2 = (database.answer r now).2 := by
  by_cases hchanges : (database.answer r now).2.changes = database.changes
  · simp [DatabaseFile.answer, Database.answer_of_changes hchanges]
  · obtain ⟨d', hcommit⟩ := h.commit (database.answer r now).2 now
    simp [DatabaseFile.answer, hchanges, hcommit]

end DatabaseFile

namespace Database

/-- A file with nothing in it yet. -/
def sampleFile : DatabaseFile := { number := 0, place := namesOf ["store.db"], writable := true }

/-- The disk that the file is on. -/
def sampleDisk : Disk := ({} : Disk).put (namesOf ["store.db"]) (.file ⟨0, [], ⟨0⟩, ⟨0⟩⟩)

end Database

end BlobStore
