import BlobStore.Content
import Mathlib.Data.List.Basic

/-!
# What draining a content gives

The bytes are gathered in one way for no chunk, one chunk and more of them, and counted in another
way. All of these join the chunks that come before the first failure.

## Main definitions

* `joined`: the chunks before the first failure joined into a value

## Main results

* `concat_eq_joined`, `count_eq_joined`, `lengthOf_eq_joined`: gathering and counting are such joins
* `Content.drain_eq_joined`: so draining is, whatever size is declared
-/

namespace BlobStore

variable {α : Type} {items left : List Item} {chunks : List Bytes} {cause : IoError}

/-! ## Items -/

theorem chunksOf_map_chunk (chunks : List Bytes) :
    chunksOf (chunks.map Item.chunk) = (chunks, none, []) := by
  induction chunks with
  | nil => rfl
  | cons chunk chunks ih => rw [List.map_cons, chunksOf, ih]

theorem chunksOf_map_chunk_append_failure (chunks : List Bytes) (cause : IoError)
    (left : List Item) :
    chunksOf (chunks.map Item.chunk ++ .failure cause :: left) = (chunks, some cause, left) := by
  induction chunks with
  | nil => rfl
  | cons chunk chunks ih => rw [List.map_cons, List.cons_append, chunksOf, ih]

/-! ## Joins -/

/-- The chunks before the first failure joined into a value, or that failure. -/
def joined (join : List Bytes → α) (items : List Item) : Drained α :=
  match chunksOf items with
  | (chunks, none, left) => (.ok (join chunks), left)
  | (_, some cause, left) => (.error (.producer cause), left)

@[simp] theorem joined_nil (join : List Bytes → α) : joined join [] = (.ok (join []), []) := rfl

@[simp] theorem joined_failure (join : List Bytes → α) (cause : IoError) (left : List Item) :
    joined join (.failure cause :: left) = (.error (.producer cause), left) := rfl

@[simp] theorem joined_chunk (join : List Bytes → α) (chunk : Bytes) (items : List Item) :
    joined join (.chunk chunk :: items) = joined (fun chunks => join (chunk :: chunks)) items := by
  unfold joined
  rw [chunksOf]
  rcases chunksOf items with ⟨chunks, failure, left⟩
  cases failure <;> rfl

theorem joined_of_chunks (join : List Bytes → α) (chunks : List Bytes) :
    joined join (chunks.map Item.chunk) = (.ok (join chunks), []) := by
  unfold joined
  rw [chunksOf_map_chunk]

theorem joined_of_failure (join : List Bytes → α) (chunks : List Bytes) (cause : IoError)
    (left : List Item) :
    joined join (chunks.map Item.chunk ++ .failure cause :: left) =
      (.error (.producer cause), left) := by
  unfold joined
  rw [chunksOf_map_chunk_append_failure]

theorem gather_eq_joined (buffer : Array UInt8) (items : List Item) :
    gather buffer items = joined (fun chunks => buffer.toList ++ chunks.flatten) items := by
  induction items generalizing buffer with
  | nil => simp [gather]
  | cons item items ih =>
    cases item with
    | failure cause => rfl
    | chunk chunk => simp [gather, ih]

/-- The bytes are those of the chunks one after the other, however many chunks there are. -/
theorem concat_eq_joined (size : Option Nat) (items : List Item) :
    concat size items = joined List.flatten items := by
  match items with
  | [] => rfl
  | .failure cause :: left => rfl
  | [.chunk first] => simp [concat]
  | .chunk first :: .failure cause :: left => simp [concat]
  | .chunk first :: .chunk second :: rest => simp [concat, gather_eq_joined]

/-- The bytes are counted modulo the size of the counter. -/
theorem count_eq_joined (total : UInt64) (items : List Item) :
    count total items = joined (fun chunks => total + .ofNat chunks.flatten.length) items := by
  induction items generalizing total with
  | nil => simp [count]
  | cons item items ih =>
    cases item with
    | failure cause => rfl
    | chunk chunk => simp [count, ih, UInt64.add_assoc]

theorem lengthOf_eq_joined (items : List Item) :
    lengthOf items = (joined (fun chunks => chunks.flatten.length) items).1 := by
  induction items with
  | nil => rfl
  | cons item items ih =>
    cases item with
    | failure cause => rfl
    | chunk chunk =>
      rw [lengthOf, ih, joined_chunk]
      unfold joined
      rcases chunksOf items with ⟨chunks, failure, left⟩
      cases failure <;> simp [Except.map]

theorem lengthOf_replicate (n : Nat) (chunk : Bytes) :
    lengthOf (List.replicate n (.chunk chunk)) = .ok (n * chunk.length) := by
  induction n with
  | zero => simp [lengthOf]
  | succ n ih => simp [List.replicate_succ, lengthOf, ih, Except.map, Nat.succ_mul, Nat.add_comm]

namespace Content

variable {content : Content}

theorem drained_eq_joined (content : Content) :
    content.drained = joined List.flatten content.producer.items := concat_eq_joined _ _

theorem drain_eq_joined (content : Content) :
    content.drain = (joined List.flatten content.producer.items).1 :=
  congrArg Prod.fst content.drained_eq_joined

/-- The length is that of the bytes, if there are any. -/
theorem length_eq_drain (content : Content) : content.length = content.drain.map List.length := by
  rw [length, lengthOf_eq_joined, drain_eq_joined]
  unfold joined
  rcases chunksOf content.producer.items with ⟨chunks, failure, left⟩
  cases failure <;> rfl

@[simp] theorem drain_ofBytes (bytes : Bytes) : (ofBytes bytes).drain = .ok bytes := rfl

end Content

end BlobStore
