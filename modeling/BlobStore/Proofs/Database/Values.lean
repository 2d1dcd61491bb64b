import BlobStore.Proofs.Database

/-!
# What a database stores

Of the rows of a database only the texts and the bytes count for what it answers, and how much room
the times of their creation take; the numbers of the rows and the pages of the file do not.
Databases that store the same answer alike at times that take the same room, store the same
afterwards, and count a change for the same requests.

## Main definitions

* `OrderedMap.mapValues`: a map with its values replaced
* `Database.values`: what counts of the rows under every text
* `Time.Current`: the times of several thousand years, which take the same room

## Main results

* `Database.refusal?_congr`: databases that store the same refuse the same requests
* `Database.answer_congr`: databases that store the same answer alike
-/

namespace BlobStore

/-! ## Maps with their values replaced -/

namespace OrderedMap

variable {κ α β : Type}

/-- The map with a function applied to every value. -/
def mapValues (f : α → β) (m : OrderedMap κ α) : OrderedMap κ β :=
  ⟨m.entries.map fun entry => (entry.1, f entry.2)⟩

@[simp] theorem keys_mapValues (f : α → β) (m : OrderedMap κ α) :
    (m.mapValues f).keys = m.keys := by
  simp [keys, mapValues, Function.comp_def]

variable [DecidableEq κ]

theorem find_map (f : α → β) (k : κ) (entries : List (κ × α)) :
    find k (entries.map fun entry => (entry.1, f entry.2)) = (find k entries).map f := by
  induction entries with
  | nil => rfl
  | cons entry rest ih =>
    obtain ⟨x, v⟩ := entry
    by_cases hx : x = k <;> simp [find, hx, ih]

@[simp] theorem get?_mapValues (f : α → β) (m : OrderedMap κ α) (k : κ) :
    (m.mapValues f).get? k = (m.get? k).map f := find_map f k m.entries

@[simp] theorem mapValues_erase (f : α → β) (m : OrderedMap κ α) (k : κ) :
    (m.erase k).mapValues f = (m.mapValues f).erase k :=
  congrArg OrderedMap.mk (by simp [mapValues, erase, List.filter_map, Function.comp_def])

variable [LT κ] [DecidableLT κ]

theorem map_insert (f : α → β) (k : κ) (v : α) (entries : List (κ × α)) :
    (insert k v entries).map (fun entry => (entry.1, f entry.2)) =
      insert k (f v) (entries.map fun entry => (entry.1, f entry.2)) := by
  induction entries with
  | nil => rfl
  | cons entry rest ih =>
    obtain ⟨x, w⟩ := entry
    simp only [insert, List.map_cons]
    split
    · rfl
    · split
      · rfl
      · rw [List.map_cons, ih]

@[simp] theorem mapValues_put (f : α → β) (m : OrderedMap κ α) (k : κ) (v : α) :
    (m.put k v).mapValues f = (m.mapValues f).put k (f v) :=
  congrArg OrderedMap.mk (map_insert f k v m.entries)

end OrderedMap

/-- Times that take six bytes in a row: they are later than January 1970, and several thousand years
are left. -/
def Time.Current (t : Time) : Prop :=
  0x80000000 ≤ Database.millis t ∧ Database.millis t < 0x800000000000

/-- What counts of a row: its bytes, and how the time of its creation is written. -/
def Row.content (row : Row) : Bytes × Nat × Nat := (row.bytes, integerCode row.created)

namespace Database

variable {d d' : Database} {now now' : Time}

/-- What a database stores: what counts of the row under every text, in the order of the texts. -/
def values (d : Database) : OrderedMap String (Bytes × Nat × Nat) := d.rows.mapValues Row.content

theorem integerCode_of_current (h : now.Current) : integerCode (millis now) = (5, 6) := by
  obtain ⟨hlow, hhigh⟩ := h
  unfold integerCode
  repeat' split
  all_goals first | rfl | omega

theorem integerCode_congr (h : now.Current) (h' : now'.Current) :
    integerCode (millis now) = integerCode (millis now') :=
  (integerCode_of_current h).trans (integerCode_of_current h').symm

/-! ## Changes -/

/-- A row that is written over keeps the time of its creation. -/
theorem values_write (d : Database) (text : String) (bytes : Bytes) (now : Time) :
    (d.write text bytes now).values = d.values.put text
      (bytes, ((d.values.get? text).map Prod.snd).getD (integerCode (millis now))) := by
  have hget : d.values.get? text = (d.rows.get? text).map Row.content :=
    OrderedMap.get?_mapValues Row.content d.rows text
  unfold write
  rw [hget]
  cases d.rows.get? text with
  | none => exact OrderedMap.mapValues_put Row.content d.rows text _
  | some old => exact OrderedMap.mapValues_put Row.content d.rows text _

theorem values_erase (d : Database) (text : String) :
    (d.erase text).values = d.values.erase text := by
  rw [values, rows_erase, OrderedMap.mapValues_erase]
  rfl

theorem changes_write (d : Database) (text : String) (bytes : Bytes) (now : Time) :
    (d.write text bytes now).changes = d.changes + 1 := by
  unfold write
  split <;> rfl

/-- A row that is there is counted as a change when it is removed. -/
theorem changes_erase {text : String} (h : d.rows.contains text) :
    (d.erase text).changes = d.changes + 1 := by
  obtain ⟨row, hrow⟩ := Option.isSome_iff_exists.mp h
  simp [erase, hrow]

/-- A row that is there is given another text, in place of the row that has it. If it has the text
already, it is removed. -/
theorem values_rename {source : String} {old : Row} (h : d.rows.get? source = some old)
    (destination : String) (now : Time) :
    ∃ after, d.rename source destination now = some after ∧ after.changes = d.changes + 1 ∧
      after.values =
        if source = destination then d.values.erase destination
        else ((d.values.erase destination).erase source).put destination old.content := by
  unfold rename
  have hcleared : (d.erase destination).rows.get? source =
      if destination = source then none else some old := by
    rw [rows_erase, OrderedMap.get?_erase, h]
  simp only [h, hcleared]
  by_cases hsd : source = destination
  · subst hsd
    simp only [if_true]
    exact ⟨_, rfl, rfl, values_erase d source⟩
  · simp only [if_neg (Ne.symm hsd), if_neg hsd]
    refine ⟨_, rfl, rfl, ?_⟩
    simp [values, rows_erase, Row.content]

/-! ## Answers -/

/-- In databases that store the same, a text has rows of which the same counts, or none. -/
theorem row_cases (h : d.values = d'.values) (text : String) :
    (d.rows.get? text = none ∧ d'.rows.get? text = none) ∨
      ∃ row row', d.rows.get? text = some row ∧ d'.rows.get? text = some row' ∧
        row.content = row'.content := by
  have he : (d.rows.get? text).map Row.content = (d'.rows.get? text).map Row.content := by
    simpa only [values, OrderedMap.get?_mapValues] using congrArg (·.get? text) h
  cases hrow : d.rows.get? text with
  | none =>
    rw [hrow] at he
    exact Or.inl ⟨rfl, Option.map_eq_none_iff.mp he.symm⟩
  | some row =>
    rw [hrow] at he
    obtain ⟨row', hrow', hb⟩ := Option.map_eq_some_iff.mp he.symm
    exact Or.inr ⟨row, row', rfl, hrow', hb.symm⟩

theorem contains_congr (h : d.values = d'.values) (text : String) :
    d.rows.contains text = d'.rows.contains text := by
  unfold OrderedMap.contains
  rcases row_cases h text with ⟨hrow, hrow'⟩ | ⟨row, row', hrow, hrow', -⟩ <;> rw [hrow, hrow']
  rfl

theorem select_congr (h : d.values = d'.values) (scope : Key) :
    d.select scope = d'.select scope := by
  have hkeys : d.rows.keys = d'.rows.keys := by
    simpa only [values, OrderedMap.keys_mapValues] using congrArg OrderedMap.keys h
  unfold select
  rw [hkeys]

/-- Two answers that show the same, after which the same is stored, and which both count a change or
both do not. -/
structure SameAnswer (r : Request) (d d' : Database)
    (answered answered' : Reply r.Answer × Database) : Prop where
  shown : answered.1.result.map r.shown = answered'.1.result.map r.shown
  values : answered.2.values = answered'.2.values
  changes : answered.2.changes = d.changes ↔ answered'.2.changes = d'.changes

/-- Databases that store the same perform every request alike. -/
theorem perform_congr (h : d.values = d'.values)
    (ht : integerCode (millis now) = integerCode (millis now')) (r : Request) :
    SameAnswer r d d' (d.perform r now) (d'.perform r now') := by
  cases r with
  | contains key =>
    simp only [perform, contains_congr h]
    exact ⟨rfl, h, iff_of_true rfl rfl⟩
  | list scope =>
    simp only [perform, select_congr h]
    exact ⟨rfl, h, iff_of_true rfl rfl⟩
  | value key =>
    refine ⟨?_, h, iff_of_true rfl rfl⟩
    rcases row_cases h key.text with ⟨hrow, hrow'⟩ | ⟨row, row', hrow, hrow', hc⟩
    · simp [perform, hrow, hrow']
    · have hbytes : row.bytes = row'.bytes := congrArg Prod.fst hc
      simp [perform, hrow, hrow', hbytes]
  | metadata key =>
    refine ⟨?_, h, iff_of_true rfl rfl⟩
    rcases row_cases h key.text with ⟨hrow, hrow'⟩ | ⟨row, row', hrow, hrow', hc⟩
    · simp [perform, hrow, hrow']
    · have hbytes : row.bytes = row'.bytes := congrArg Prod.fst hc
      simp [perform, hrow, hrow', hbytes, Reply.orNotFound, Reply.ok, Except.map, Request.shown,
        Meta.size, Meta.read, describe]
  | save key content =>
    simp only [perform]
    cases content.drain with
    | error e => exact ⟨rfl, h, iff_of_true rfl rfl⟩
    | ok bytes =>
      exact ⟨rfl, by rw [values_write, values_write, h, ht], by simp [changes_write]⟩
  | delete key =>
    simp only [perform, ← contains_congr h]
    by_cases hc : d.rows.contains key.text
    · have hc' := contains_congr h key.text ▸ hc
      simp only [hc, if_true]
      exact ⟨rfl, by rw [values_erase, values_erase, h],
        by simp [changes_erase hc, changes_erase hc']⟩
    · simp only [hc]
      exact ⟨rfl, h, iff_of_true rfl rfl⟩
  | move source destination =>
    simp only [perform, ← contains_congr h]
    by_cases hsd : source = destination
    · simp only [if_pos hsd]
      split
      · exact ⟨rfl, h, iff_of_true rfl rfl⟩
      · exact ⟨rfl, h, iff_of_true rfl rfl⟩
    · simp only [if_neg hsd]
      rcases row_cases h source.text with ⟨hrow, hrow'⟩ | ⟨row, row', hrow, hrow', hc⟩
      · rw [rename_eq_none hrow, rename_eq_none hrow']
        exact ⟨rfl, h, iff_of_true rfl rfl⟩
      · obtain ⟨after, he, hchanges, hvalues⟩ := values_rename hrow destination.text now
        obtain ⟨after', he', hchanges', hvalues'⟩ := values_rename hrow' destination.text now'
        rw [he, he']
        refine ⟨rfl, ?_, by simp [hchanges, hchanges']⟩
        simp only [hvalues, hvalues', h, hc]

theorem rowPayload_congr {created created' modified modified' : Nat}
    (hc : integerCode created = integerCode created')
    (hm : integerCode modified = integerCode modified') (text : String) (length : Nat) :
    rowPayload text length created modified = rowPayload text length created' modified' := by
  unfold rowPayload
  rw [hc, hm]

/-- Databases that store the same refuse the same requests, if the times take the same room. -/
theorem refusal?_congr (h : d.values = d'.values)
    (ht : integerCode (millis now) = integerCode (millis now')) (r : Request) :
    d.refusal? now r = d'.refusal? now' r := by
  cases r with
  | contains key | list scope | value key | delete key | metadata key => rfl
  | save key content =>
    have hpayload : ∀ length, d.savedPayload key.text length now =
        d'.savedPayload key.text length now' := by
      intro length
      unfold savedPayload
      rcases row_cases h key.text with ⟨hrow, hrow'⟩ | ⟨row, row', hrow, hrow', hc⟩ <;>
        rw [hrow, hrow']
      · exact rowPayload_congr ht ht _ _
      · exact rowPayload_congr (congrArg Prod.snd hc) ht _ _
    simp only [refusal?, hpayload]
  | move source destination =>
    have hpayload : d.movedPayload? source.text destination.text now =
        d'.movedPayload? source.text destination.text now' := by
      unfold movedPayload?
      rw [OrderedMap.get?_erase, OrderedMap.get?_erase]
      split
      · rfl
      · rcases row_cases h source.text with ⟨hrow, hrow'⟩ | ⟨row, row', hrow, hrow', hc⟩ <;>
          rw [hrow, hrow']
        · rfl
        · have hbytes : row.bytes = row'.bytes := congrArg Prod.fst hc
          simp only [Option.map_some, payload, hbytes]
          exact congrArg some (rowPayload_congr (congrArg Prod.snd hc) ht _ _)
    simp only [refusal?, contains_congr h, hpayload]

/-- **Values.** Databases that store the same answer every request alike, if the times take the same
room. -/
theorem answer_congr (h : d.values = d'.values)
    (ht : integerCode (millis now) = integerCode (millis now')) (r : Request) :
    SameAnswer r d d' (d.answer r now) (d'.answer r now') := by
  have hrefusal := refusal?_congr h ht r
  cases hr : d.refusal? now r with
  | some reason =>
    rw [answer_of_refusal hr, answer_of_refusal (hrefusal ▸ hr)]
    exact ⟨rfl, h, iff_of_true rfl rfl⟩
  | none =>
    rw [answer_of_accepted hr, answer_of_accepted (hrefusal ▸ hr)]
    exact perform_congr h ht r

end Database

end BlobStore
