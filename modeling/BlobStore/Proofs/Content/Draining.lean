import BlobStore.Proofs.Content
import BlobStore.Proofs.Text.Utf8

/-!
# Draining depends on the items alone

Bytes, number of bytes, text and value are what the items say: the declared size does not matter,
and neither does the way in which the bytes are cut into chunks. The first failure fails all four,
and nothing is pulled after it.

## Main definitions

* `Content.drainings`: what the four ways of draining give, each with what it does not pull
* `Content.Whole`, `Content.Broken`: what they give without and with a failure among the items

## Main results

* `Content.whole_or_broken`: every content is drained as one of the two says
-/

namespace BlobStore

/-- A sequence of items is one of chunks, or chunks come before its first failure. -/
theorem chunks_or_failure (items : List Item) :
    (∃ chunks : List Bytes, items = chunks.map Item.chunk) ∨
      ∃ (chunks : List Bytes) (cause : IoError) (left : List Item),
        items = chunks.map Item.chunk ++ .failure cause :: left := by
  induction items with
  | nil => exact .inl ⟨[], rfl⟩
  | cons item items ih =>
    cases item with
    | failure cause => exact .inr ⟨[], cause, items, rfl⟩
    | chunk chunk =>
      rcases ih with ⟨chunks, rfl⟩ | ⟨chunks, cause, left, rfl⟩
      · exact .inl ⟨chunk :: chunks, rfl⟩
      · exact .inr ⟨chunk :: chunks, cause, left, rfl⟩

namespace Content

variable {α : Type} {read : List Char → Except String α} {content other : Content}
  {chunks others : List Bytes} {cause : IoError} {left : List Item} {text : String}

/-- What the four ways of draining a content give, and the items that each leaves unpulled. -/
def drainings (content : Content) (read : List Char → Except String α) :
    Drained Bytes × Drained UInt64 × Drained String × Drained α :=
  (content.drained, content.measured, content.decoded, content.parsed read)

/-- A text read as a value; the error shows the text untrimmed. -/
def valueOf (read : List Char → Except String α) (text : String) : Except ContentError α :=
  match read (Text.trim text.toList) with
  | .ok value => .ok value
  | .error reason => .error (.undecodable s!"'{text}': {reason}")

/-- A content of chunks gives their bytes, and all items are pulled. Their number is counted in 64
bits, so it is exact as far as these go. They are a text if they are the encoding of one, wherever
the chunks are cut. -/
structure Whole (content : Content) (read : List Char → Except String α) (chunks : List Bytes) :
    Prop where
  items : content.producer.items = chunks.map Item.chunk
  bytes : content.drained = (.ok chunks.flatten, [])
  number : content.measured = (.ok (.ofNat chunks.flatten.length), [])
  toNat_number : chunks.flatten.length < UInt64.size →
    content.measure.map UInt64.toNat = .ok chunks.flatten.length
  text : ∀ text, Utf8.encode text = chunks.flatten →
    content.decoded = (.ok text, []) ∧ content.parsed read = (valueOf read text, [])
  notText : (∀ text, Utf8.encode text ≠ chunks.flatten) → ∃ reason,
    content.decoded = (.error (.undecodable reason), []) ∧
      content.parsed read = (.error (.undecodable reason), [])
  uncut : ∀ (other : Content) (others : List Bytes), other.producer.items = others.map Item.chunk →
    others.flatten = chunks.flatten → other.drainings read = content.drainings read

/-- A content that fails after some chunks gives that failure, and pulls nothing after it. -/
structure Broken (content : Content) (read : List Char → Except String α) (chunks : List Bytes)
    (cause : IoError) (left : List Item) : Prop where
  items : content.producer.items = chunks.map Item.chunk ++ .failure cause :: left
  drainings : content.drainings read =
    ((.error (.producer cause), left), (.error (.producer cause), left),
      (.error (.producer cause), left), (.error (.producer cause), left))

theorem drained_of_chunks (h : content.producer.items = chunks.map Item.chunk) :
    content.drained = (.ok chunks.flatten, []) := by
  rw [drained_eq_joined, h, joined_of_chunks]

theorem measured_of_chunks (h : content.producer.items = chunks.map Item.chunk) :
    content.measured = (.ok (.ofNat chunks.flatten.length), []) := by
  rw [measured, count_eq_joined, h, joined_of_chunks, UInt64.zero_add]

/-- The four ways of draining chunks read nothing but their bytes. -/
theorem drainings_eq_of_flatten (h : content.producer.items = chunks.map Item.chunk)
    (hother : other.producer.items = others.map Item.chunk)
    (hflat : others.flatten = chunks.flatten) :
    other.drainings read = content.drainings read := by
  have hdrained : other.drained = content.drained := by
    rw [drained_of_chunks h, drained_of_chunks hother, hflat]
  have hmeasured : other.measured = content.measured := by
    rw [measured_of_chunks h, measured_of_chunks hother, hflat]
  unfold drainings parsed decoded
  rw [hdrained, hmeasured]

theorem parsed_of_decoded (h : content.decoded = (.ok text, left)) :
    content.parsed read = (valueOf read text, left) := by
  rw [parsed, h]
  rfl

theorem whole (h : content.producer.items = chunks.map Item.chunk) :
    content.Whole read chunks where
  items := h
  bytes := drained_of_chunks h
  number := measured_of_chunks h
  toNat_number hlength := by
    rw [measure, measured_of_chunks h, Except.map, UInt64.toNat_ofNat_of_lt' hlength]
  text text htext := by
    have hdecoded : content.decoded = (.ok text, []) := by
      rw [decoded, drained_of_chunks h, ← htext]
      simp only [Drained.andThen, Utf8.decode_encode]
    exact ⟨hdecoded, parsed_of_decoded hdecoded⟩
  notText hnone := by
    cases hdecode : Utf8.decode chunks.flatten with
    | ok text => exact absurd (Utf8.decode_eq_ok_iff.mp hdecode) (hnone text)
    | error e =>
      have hdecoded : content.decoded = (.error (.undecodable e.message), []) := by
        rw [decoded, drained_of_chunks h]
        simp only [Drained.andThen, hdecode]
      exact ⟨e.message, hdecoded, by rw [parsed, hdecoded]; rfl⟩
  uncut _ _ hother hflat := drainings_eq_of_flatten h hother hflat

theorem broken (h : content.producer.items = chunks.map Item.chunk ++ .failure cause :: left) :
    content.Broken read chunks cause left where
  items := h
  drainings := by
    have hdrained : content.drained = (.error (.producer cause), left) := by
      rw [drained_eq_joined, h, joined_of_failure]
    have hmeasured : content.measured = (.error (.producer cause), left) := by
      rw [measured, count_eq_joined, h, joined_of_failure]
    unfold Content.drainings parsed decoded
    rw [hdrained, hmeasured]
    rfl

/-- A character may be cut in the middle, and the declared size may be wrong. -/
example : (ofStream [.chunk [0xC3], .chunk [], .chunk [0xA9]] (some 7)).text = .ok "é" := by rfl

end Content

end BlobStore
