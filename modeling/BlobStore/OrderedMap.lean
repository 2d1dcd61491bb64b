/-!
# Finite maps in ascending order

Entries stand in the order of their keys. What a look-up finds after a change does not depend on
that order, so the laws below hold of every list of entries.

## Main definitions

* `OrderedMap`: entries, each a key and its value
* `OrderedMap.get?`, `OrderedMap.put`, `OrderedMap.erase`: look-up, insertion and removal

## Main results

* `OrderedMap.get?_put`, `OrderedMap.get?_erase`: a change shows at one key only
-/

namespace BlobStore

/-- A map by its entries; changes of a map in order keep them in ascending order. -/
structure OrderedMap (κ α : Type) where
  entries : List (κ × α) := []
deriving DecidableEq, Repr, Inhabited

namespace OrderedMap

variable {κ α : Type}

/-- The map without entries. -/
def empty : OrderedMap κ α := ⟨[]⟩

/-- The keys in their order. -/
def keys (m : OrderedMap κ α) : List κ := m.entries.map (·.1)

/-- The number of entries. -/
def size (m : OrderedMap κ α) : Nat := m.entries.length

/-- There are no entries. -/
def isEmpty (m : OrderedMap κ α) : Bool := m.entries.isEmpty

/-! ## Look-up and change -/

section

variable [DecidableEq κ]

/-- The value of a key among entries. -/
def find (k : κ) : List (κ × α) → Option α
  | [] => none
  | (x, v) :: rest => if x = k then some v else find k rest

/-- The value of a key. -/
def get? (m : OrderedMap κ α) (k : κ) : Option α := find k m.entries

/-- Whether a key has a value. -/
def contains (m : OrderedMap κ α) (k : κ) : Bool := (m.get? k).isSome

/-- The map without a key. -/
def erase (m : OrderedMap κ α) (k : κ) : OrderedMap κ α := ⟨m.entries.filter (·.1 ≠ k)⟩

variable [LT κ] [DecidableLT κ]

/-- The entries with one more, in place of the one with the same key if there is one. -/
def insert (k : κ) (v : α) : List (κ × α) → List (κ × α)
  | [] => [(k, v)]
  | (x, w) :: rest =>
    if x = k then (k, v) :: rest
    else if k < x then (k, v) :: (x, w) :: rest
    else (x, w) :: insert k v rest

/-- The map with a key set to a value. -/
def put (m : OrderedMap κ α) (k : κ) (v : α) : OrderedMap κ α := ⟨insert k v m.entries⟩

/-- The value of a key changed, if the key is there. -/
def alter (m : OrderedMap κ α) (k : κ) (f : α → α) : OrderedMap κ α :=
  match m.get? k with
  | some v => m.put k (f v)
  | none => m

end

/-! ## What a look-up finds -/

section

variable [DecidableEq κ]

@[simp] theorem get?_empty (k : κ) : (empty : OrderedMap κ α).get? k = none := rfl

theorem find_filter_ne (k j : κ) (entries : List (κ × α)) :
    find j (entries.filter (·.1 ≠ k)) = if k = j then none else find j entries := by
  induction entries with
  | nil => simp [find]
  | cons entry rest ih =>
    obtain ⟨x, w⟩ := entry
    by_cases hx : x = k <;> by_cases hk : k = j <;> simp_all [find]

@[simp] theorem get?_erase (m : OrderedMap κ α) (k j : κ) :
    (m.erase k).get? j = if k = j then none else m.get? j := find_filter_ne k j m.entries

variable [LT κ] [DecidableLT κ]

theorem find_insert (k j : κ) (v : α) (entries : List (κ × α)) :
    find j (insert k v entries) = if k = j then some v else find j entries := by
  induction entries with
  | nil => simp [insert, find]
  | cons entry rest ih =>
    obtain ⟨x, w⟩ := entry
    unfold insert
    split
    · rename_i h
      subst h
      by_cases hk : x = j <;> simp [find, hk]
    · split <;> by_cases hk : k = j <;> simp_all [find]

@[simp] theorem get?_put (m : OrderedMap κ α) (k j : κ) (v : α) :
    (m.put k v).get? j = if k = j then some v else m.get? j := find_insert k j v m.entries

theorem get?_alter (m : OrderedMap κ α) (k j : κ) (f : α → α) :
    (m.alter k f).get? j = if k = j then (m.get? j).map f else m.get? j := by
  unfold alter
  split
  · rename_i v h
    rw [get?_put]
    split
    · rename_i hk
      subst hk
      simp [h]
    · rfl
  · rename_i h
    split
    · rename_i hk
      subst hk
      simp [h]
    · rfl

end

end OrderedMap

end BlobStore
