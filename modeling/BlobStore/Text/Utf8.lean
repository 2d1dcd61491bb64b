/-!
# UTF-8

Bytes read as text. Where the bytes are no text, the error says how many bytes before it are, and
how many bytes the offending sequence has: a sequence cut off by the end of the bytes has none.

## Main definitions

* `Utf8.decode`: the text of bytes, or where and how they stop being one
* `Utf8.encode`: the bytes of a text
* `Utf8.lossy`: bytes as a text, with replacements for what is none
-/

namespace BlobStore

/-- Contents are sequences of bytes. -/
abbrev Bytes := List UInt8

namespace Utf8

/-- The first byte sequence that belongs to no text. -/
structure Malformed where
  /-- The number of bytes before it. -/
  index : Nat
  /-- Its length; `none` if more bytes could complete it. -/
  length : Option Nat
deriving DecidableEq, Repr

/-- The fault in words. -/
def Malformed.message (e : Malformed) : String :=
  match e.length with
  | some n => s!"invalid utf-8 sequence of {n} bytes from index {e.index}"
  | none => s!"incomplete utf-8 byte sequence from index {e.index}"

/-- A byte that continues a sequence. -/
def continues (b : UInt8) : Bool := 0x80 ≤ b && b ≤ 0xBF

/-- The second bytes that a first byte admits; these bounds rule out overlong sequences,
surrogates and numbers above the last code point. -/
def admitsSecond (first second : UInt8) : Bool :=
  if first = 0xE0 then 0xA0 ≤ second && second ≤ 0xBF
  else if first = 0xED then 0x80 ≤ second && second ≤ 0x9F
  else if first = 0xF0 then 0x90 ≤ second && second ≤ 0xBF
  else if first = 0xF4 then 0x80 ≤ second && second ≤ 0x8F
  else continues second

/-- The number of bytes that a first byte announces, its own included; some bytes start no
sequence. -/
inductive Width
  | none
  | one
  | two
  | three
  | four
deriving DecidableEq, Repr

/-- The width that a first byte announces. -/
def width (first : UInt8) : Width :=
  if first ≤ 0x7F then .one
  else if 0xC2 ≤ first && first ≤ 0xDF then .two
  else if 0xE0 ≤ first && first ≤ 0xEF then .three
  else if 0xF0 ≤ first && first ≤ 0xF4 then .four
  else .none

/-- The six payload bits of a continuing byte. -/
def payload (b : UInt8) : Nat := b.toNat % 64

/-- The decoder at byte `index`, with the characters before it in reverse. -/
def decodeFrom (index : Nat) (read : List Char) : Bytes → Except Malformed (List Char)
  | [] => .ok read.reverse
  | a :: rest =>
    match width a, rest with
    | .one, rest => decodeFrom (index + 1) (Char.ofNat a.toNat :: read) rest
    | .two, b :: rest =>
      if !continues b then .error ⟨index, some 1⟩
      else decodeFrom (index + 2) (Char.ofNat (a.toNat % 32 * 64 + payload b) :: read) rest
    | .two, [] => .error ⟨index, none⟩
    | .three, [] => .error ⟨index, none⟩
    | .three, [b] => .error ⟨index, if admitsSecond a b then none else some 1⟩
    | .three, b :: c :: rest =>
      if !admitsSecond a b then .error ⟨index, some 1⟩
      else if !continues c then .error ⟨index, some 2⟩
      else
        decodeFrom (index + 3)
          (Char.ofNat ((a.toNat % 16 * 64 + payload b) * 64 + payload c) :: read) rest
    | .four, [] => .error ⟨index, none⟩
    | .four, [b] => .error ⟨index, if admitsSecond a b then none else some 1⟩
    | .four, [b, c] =>
      .error ⟨index,
        if !admitsSecond a b then some 1 else if !continues c then some 2 else none⟩
    | .four, b :: c :: d :: rest =>
      if !admitsSecond a b then .error ⟨index, some 1⟩
      else if !continues c then .error ⟨index, some 2⟩
      else if !continues d then .error ⟨index, some 3⟩
      else
        decodeFrom (index + 4)
          (Char.ofNat (((a.toNat % 8 * 64 + payload b) * 64 + payload c) * 64 + payload d) :: read)
          rest
    | .none, _ => .error ⟨index, some 1⟩

/-- The text that bytes are, or how they stop being one. -/
def decode (bytes : Bytes) : Except Malformed String :=
  (decodeFrom 0 [] bytes).map String.ofList

/-- The bytes of a text. -/
def encode (text : String) : Bytes := text.toList.flatMap String.utf8EncodeChar

/-! ## Bytes that are no text -/

/-- A sequence that belongs to no text has a byte. -/
theorem length_pos_of_decodeFrom {index : Nat} {read : List Char} {bytes : Bytes} {e : Malformed}
    {n : Nat} (h : decodeFrom index read bytes = .error e) (hn : e.length = some n) : 0 < n := by
  fun_induction decodeFrom index read bytes <;> grind

/-- Without the bytes before a sequence that belongs to no text and its own there are fewer. -/
theorem length_drop_lt_of_decode {bytes : Bytes} {e : Malformed} {n : Nat}
    (h : decode bytes = .error e) (hn : e.length = some n) :
    (bytes.drop (e.index + n)).length < bytes.length := by
  cases hfrom : decodeFrom 0 [] bytes with
  | ok chars => simp [decode, hfrom, Except.map] at h
  | error fault =>
    obtain rfl : fault = e := by simpa [decode, hfrom, Except.map] using h
    have hpos : 0 < n := length_pos_of_decodeFrom hfrom hn
    have hbytes : bytes ≠ [] := by
      rintro rfl
      simp [decodeFrom] at hfrom
    have hlength : 0 < bytes.length := List.length_pos_iff.mpr hbytes
    rw [List.length_drop]
    omega

/-- Bytes as a text. Each sequence that belongs to none is read as one replacement character. -/
def lossy (bytes : Bytes) : String :=
  match _h : decode bytes with
  | .ok text => text
  | .error e =>
    let before := (decode (bytes.take e.index)).toOption.getD ""
    match _hn : e.length with
    | none => before ++ "\uFFFD"
    | some n => before ++ "\uFFFD" ++ lossy (bytes.drop (e.index + n))
termination_by bytes.length
decreasing_by exact length_drop_lt_of_decode _h _hn

end Utf8

end BlobStore
