import BlobStore.Proofs.Content
import Mathlib.Algebra.Order.Floor.Div

/-!
# What the stream over a reader yields

A reader holds pieces. The stream over it cuts each piece into chunks of `readSize` bytes, the last
of which may be shorter, and joins no two pieces. It ends at the first piece that is empty, since a
read that returns nothing is the end, and at the first failure.

## Main definitions

* `supply`: the pieces that a reader gives away, and the failure that ends them
* `IsCut`: the chunks that one piece is cut into
* `Unfolding.nth`: what the pulls of a stream yield, one after the other and without end

## Main results

* `Content.ofReader_rechunks`: the items of a content over a reader
* `Content.drain_ofReader`: draining it gives the bytes of the pieces
-/

namespace BlobStore

/-! ## Pulling without end -/

namespace Unfolding

variable {σ : Type} {step : Unfolding σ} {state state' : Option σ} {item : Item} {items : List Item}

/-- The state after some pulls. -/
def after (step : Unfolding σ) : ℕ → Option σ → Option σ
  | 0, state => state
  | n + 1, state => after step n (step.pull state).2

/-- What the pull after `n` others yields. -/
def nth (step : Unfolding σ) (state : Option σ) (n : ℕ) : Option Item :=
  (step.pull (step.after n state)).1

/-- The items that a stream yields before a pull yields nothing. -/
inductive Yields (step : Unfolding σ) : Option σ → List Item → Prop
  | ended {state state' : Option σ} (h : step.pull state = (none, state')) : Yields step state []
  | next {state state' : Option σ} {item : Item} {items : List Item}
      (h : step.pull state = (some item, state')) (hrest : Yields step state' items) :
      Yields step state (item :: items)

/-- A stream that has yielded nothing once has ended. -/
theorem pull_ended (h : step.pull state = (none, state')) : state' = none := by
  cases state with
  | none => exact (congrArg Prod.snd h).symm
  | some s =>
    unfold pull at h
    split at h
    · exact (Prod.mk.inj h).2.symm
    · split at h
      · cases (Prod.mk.inj h).1
      · exact (Prod.mk.inj h).2.symm
      · cases (Prod.mk.inj h).1

@[simp] theorem after_none (step : Unfolding σ) (n : ℕ) : step.after n none = none := by
  induction n with
  | zero => rfl
  | succ n ih => exact ih

theorem Yields.items_eq (h : Yields step state items) {n : ℕ} (hn : items.length ≤ n) :
    step.items n state = items := by
  induction h generalizing n with
  | ended h =>
    cases n with
    | zero => rfl
    | succ n => simp [Unfolding.items, h]
  | next h _ ih =>
    cases n with
    | zero => cases hn
    | succ n => simp [Unfolding.items, h, ih (Nat.le_of_succ_le_succ hn)]

/-- The pulls yield the items one after the other, and nothing afterwards. -/
theorem Yields.nth_eq (h : Yields step state items) (n : ℕ) : step.nth state n = items[n]? := by
  induction h generalizing n with
  | @ended state state' h =>
    cases n with
    | zero => simp [nth, after, h]
    | succ n =>
      rw [nth, after, h, pull_ended h, after_none]
      rfl
  | next h _ ih =>
    cases n with
    | zero => simp [nth, after, h]
    | succ n =>
      rw [nth, after, h]
      exact ih n

end Unfolding

/-! ## Cutting a piece -/

/-- The pieces of a reader up to the first empty piece, or up to the first failure, and that
failure. -/
def supply : List Item → List Bytes × Option IoError
  | [] => ([], none)
  | .failure cause :: _ => ([], some cause)
  | .chunk [] :: _ => ([], none)
  | .chunk piece :: rest => (piece :: (supply rest).1, (supply rest).2)

/-- The chunks that a piece is cut into: no more of them than it takes, all full but possibly the
last. -/
structure IsCut (piece : Bytes) (chunks : List Bytes) : Prop where
  flatten : chunks.flatten = piece
  count : chunks.length = piece.length ⌈/⌉ readSize
  bounds : ∀ chunk ∈ chunks, 1 ≤ chunk.length ∧ chunk.length ≤ readSize
  full : ∀ chunk ∈ chunks.dropLast, chunk.length = readSize

variable {piece front : Bytes} {chunks : List Bytes} {pieces rest items : List Item}

theorem readSize_eq : readSize = 8192 := rfl

theorem isCut_singleton (hne : piece ≠ []) (h : piece.length ≤ readSize) :
    IsCut piece [piece] where
  flatten := List.flatten_singleton
  count := by
    have hpos := List.length_pos_of_ne_nil hne
    rw [Nat.ceilDiv_eq_add_pred_div, List.length_singleton]
    rw [readSize_eq] at h ⊢
    omega
  bounds chunk hchunk := by
    obtain rfl := List.mem_singleton.mp hchunk
    exact ⟨List.length_pos_of_ne_nil hne, h⟩
  full chunk hchunk := by cases hchunk

theorem IsCut.cons (h : IsCut piece chunks) (hne : piece ≠ []) (hfront : front.length = readSize) :
    IsCut (front ++ piece) (front :: chunks) where
  flatten := by rw [List.flatten_cons, h.flatten]
  count := by
    have hcount := h.count
    rw [Nat.ceilDiv_eq_add_pred_div] at hcount ⊢
    rw [List.length_cons, List.length_append]
    rw [readSize_eq] at hfront hcount ⊢
    omega
  bounds chunk hchunk := by
    rcases List.mem_cons.mp hchunk with rfl | hchunk
    · rw [hfront]
      exact ⟨by decide, Nat.le_refl _⟩
    · exact h.bounds chunk hchunk
  full chunk hchunk := by
    have hchunks : chunks ≠ [] := by
      rintro rfl
      exact hne h.flatten.symm
    rw [List.dropLast_cons_of_ne_nil hchunks] at hchunk
    rcases List.mem_cons.mp hchunk with rfl | hchunk
    · exact hfront
    · exact h.full chunk hchunk

/-- There are at most as many chunks as bytes. -/
theorem IsCut.length_le (h : IsCut piece chunks) : chunks.length ≤ piece.length := by
  rw [h.count, Nat.ceilDiv_eq_add_pred_div, readSize_eq]
  omega

theorem flatten_of_isCut {pieces : List Bytes} {groups : List (List Bytes)}
    (h : List.Forall₂ IsCut pieces groups) : groups.flatten.flatten = pieces.flatten := by
  induction h with
  | nil => rfl
  | cons hcut _ ih => simp only [List.flatten_cons, List.flatten_append, hcut.flatten, ih]

theorem bounds_of_isCut {pieces : List Bytes} {groups : List (List Bytes)}
    (h : List.Forall₂ IsCut pieces groups) :
    ∀ chunk ∈ groups.flatten, 1 ≤ chunk.length ∧ chunk.length ≤ readSize := by
  induction h with
  | nil => simp
  | cons hcut _ ih =>
    intro chunk hchunk
    rw [List.flatten_cons, List.mem_append] at hchunk
    exact hchunk.elim (hcut.bounds chunk) (ih chunk)

/-! ## The stream over a reader -/

theorem chunkwise_of_le (hne : piece ≠ []) (h : piece.length ≤ readSize) :
    chunkwise (.chunk piece :: rest) = .ok (some (piece, rest)) := by
  obtain ⟨byte, bytes, rfl⟩ := List.exists_cons_of_ne_nil hne
  simp [chunkwise, readOnce, List.drop_eq_nil_of_le h]

theorem chunkwise_of_lt (h : readSize < piece.length) :
    chunkwise (.chunk piece :: rest) =
      .ok (some (piece.take readSize, .chunk (piece.drop readSize) :: rest)) := by
  have hleft : piece.drop readSize ≠ [] := by
    rw [Ne, List.drop_eq_nil_iff]
    omega
  have htaken : piece.take readSize ≠ [] := by
    rw [Ne, List.take_eq_nil_iff, not_or, ← List.length_eq_zero_iff]
    exact ⟨by decide, by omega⟩
  have hread : readOnce readSize (.chunk piece :: rest) =
      (.ok (piece.take readSize), .chunk (piece.drop readSize) :: rest) := by
    rw [readOnce]
    split
    · contradiction
    · rfl
  obtain ⟨byte, bytes, hcons⟩ := List.exists_cons_of_ne_nil htaken
  rw [chunkwise, hread, hcons]

/-- A piece is cut, and what follows it comes afterwards. -/
theorem yields_piece {piece : Bytes} (hrest : chunkwise.Yields (some rest) items)
    (hne : piece ≠ []) :
    ∃ chunks, IsCut piece chunks ∧
      chunkwise.Yields (some (.chunk piece :: rest)) (chunks.map Item.chunk ++ items) := by
  by_cases h : piece.length ≤ readSize
  case pos =>
    refine ⟨[piece], isCut_singleton hne h, .next ?_ hrest⟩
    simp [Unfolding.pull, chunkwise_of_le hne h]
  case neg =>
    have h := Nat.lt_of_not_le h
    have hleft : (piece.drop readSize).length < piece.length := by
      rw [List.length_drop, readSize_eq]
      omega
    have hleftne : piece.drop readSize ≠ [] := by
      rw [Ne, List.drop_eq_nil_iff]
      omega
    obtain ⟨chunks, hcut, hyields⟩ := yields_piece hrest hleftne
    refine ⟨piece.take readSize :: chunks, ?_, .next ?_ hyields⟩
    · have := hcut.cons hleftne (List.length_take_of_le h.le)
      rwa [List.take_append_drop] at this
    · simp [Unfolding.pull, chunkwise_of_lt h]
termination_by piece.length
decreasing_by exact hleft

/-- The stream over a reader yields the chunks that its pieces are cut into, and the failure that
ends them. -/
theorem yields_reader (pieces : List Item) :
    ∃ groups : List (List Bytes), List.Forall₂ IsCut (supply pieces).1 groups ∧
      chunkwise.Yields (some pieces)
        (groups.flatten.map Item.chunk ++ (supply pieces).2.toList.map Item.failure) ∧
      groups.flatten.length + (supply pieces).2.toList.length ≤ readsWithin pieces := by
  match pieces with
  | [] => exact ⟨[], .nil, .ended rfl, Nat.le_refl _⟩
  | .failure cause :: rest => exact ⟨[], .nil, .next rfl (.ended rfl), Nat.le_add_right 1 _⟩
  | .chunk [] :: rest => exact ⟨[], .nil, .ended rfl, Nat.zero_le _⟩
  | .chunk (byte :: bytes) :: rest =>
    obtain ⟨groups, hcuts, hyields, hlength⟩ := yields_reader rest
    obtain ⟨chunks, hcut, hyields⟩ := yields_piece hyields (List.cons_ne_nil byte bytes)
    refine ⟨chunks :: groups, .cons hcut hcuts, ?_, ?_⟩
    · rw [List.flatten_cons, List.map_append, List.append_assoc]
      exact hyields
    · have := hcut.length_le
      rw [List.flatten_cons, List.length_append, readsWithin]
      show chunks.length + groups.flatten.length + (supply rest).2.toList.length ≤ _
      omega

namespace Content

/-- What a content over a reader yields: the chunks of one piece after the other, and the failure
that ends them. -/
theorem items_ofReader (pieces : List Item) (size : Option Nat) :
    ∃ groups : List (List Bytes), List.Forall₂ IsCut (supply pieces).1 groups ∧
      (ofReader pieces size).producer.items =
        groups.flatten.map Item.chunk ++ (supply pieces).2.toList.map Item.failure ∧
      chunkwise.Yields (some pieces) (ofReader pieces size).producer.items := by
  obtain ⟨groups, hcuts, hyields, hlength⟩ := yields_reader pieces
  have hitems : (ofReader pieces size).producer.items = _ :=
    hyields.items_eq (by simpa only [List.length_append, List.length_map] using hlength)
  exact ⟨groups, hcuts, hitems, hitems ▸ hyields⟩

/-- A reader is cut into chunks without loss. Its pieces up to the first empty one, or up to the
first failure, are each cut into as many chunks as they take, no two of them joined; a failure comes
last, and nothing is yielded afterwards. -/
theorem ofReader_rechunks (pieces : List Item) (size : Option Nat) :
    ∃ groups : List (List Bytes),
      (ofReader pieces size).producer.items =
        groups.flatten.map Item.chunk ++ (supply pieces).2.toList.map Item.failure ∧
      List.Forall₂ IsCut (supply pieces).1 groups ∧
      (∀ chunk ∈ groups.flatten, 1 ≤ chunk.length ∧ chunk.length ≤ readSize) ∧
      groups.flatten.flatten = (supply pieces).1.flatten ∧
      ∀ n, chunkwise.nth (some pieces) n = (ofReader pieces size).producer.items[n]? := by
  obtain ⟨groups, hcuts, hitems, hyields⟩ := items_ofReader pieces size
  exact ⟨groups, hitems, hcuts, bounds_of_isCut hcuts, flatten_of_isCut hcuts, hyields.nth_eq⟩

/-- An empty piece is the end, also of a reader that would fail after it. -/
example :
    (ofReader [.chunk [1], .chunk [2, 3], .chunk [], .failure ⟨.other, "late"⟩]
      none).producer.items = [.chunk [1], .chunk [2, 3]] := by rfl

/-- Draining a reader gives the bytes of its pieces. -/
theorem drain_ofReader_eq (pieces : List Item) (size : Option Nat) :
    (ofReader pieces size).drain =
      match supply pieces with
      | (pieces, none) => .ok pieces.flatten
      | (_, some cause) => .error (.producer cause) := by
  obtain ⟨groups, hcuts, hitems, -⟩ := items_ofReader pieces size
  rw [drain_eq_joined, hitems]
  rcases hsupply : supply pieces with ⟨pieces, failure⟩
  rw [hsupply] at hcuts
  cases failure with
  | none =>
    show (joined List.flatten (groups.flatten.map Item.chunk ++ [])).1 = _
    rw [List.append_nil, joined_of_chunks, flatten_of_isCut hcuts]
  | some cause =>
    show (joined List.flatten (groups.flatten.map Item.chunk ++ [.failure cause])).1 = _
    rw [joined_of_failure]

@[simp] theorem drain_ofReader (piece : Bytes) (size : Option Nat) :
    (ofReader [.chunk piece] size).drain = .ok piece := by
  rw [drain_ofReader_eq]
  cases piece with
  | nil => rfl
  | cons byte bytes => simp [supply]

end Content

end BlobStore
