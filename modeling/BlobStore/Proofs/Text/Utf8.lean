import BlobStore.Text.Utf8
import Mathlib.Data.Nat.Notation
import Mathlib.Tactic.SplitIfs

/-!
# What bytes are text

The decoder takes one sequence of bytes after the other, and each that it takes is the encoding of
one character. So it reads exactly the bytes of texts, and reads them back.

## Main definitions

* `Utf8.Sequence`: the sequences that the decoder takes, with the code points that they stand for

## Main results

* `Utf8.sequence_encode`, `Utf8.Sequence.encode_eq`: these are the encodings of characters
* `Utf8.decode_eq_ok_iff`: the bytes that are read as a text are its encoding
* `Utf8.replacement_mem_lossy`: bytes that are no text are not read as if they were one
-/

namespace BlobStore.Utf8

/-! ## Bytes as numbers -/

section

variable {a b : UInt8}

theorem ofNat_eq {n : ℕ} (h : a.toNat = n) : UInt8.ofNat n = a := by
  rw [← h, UInt8.ofNat_toNat]

theorem continues_iff : continues b ↔ 0x80 ≤ b.toNat ∧ b.toNat ≤ 0xBF := by
  simp [continues, UInt8.le_iff_toNat_le]

theorem admitsSecond_iff :
    admitsSecond a b ↔ (0x80 ≤ b.toNat ∧ b.toNat ≤ 0xBF) ∧ (a.toNat = 0xE0 → 0xA0 ≤ b.toNat) ∧
      (a.toNat = 0xED → b.toNat ≤ 0x9F) ∧ (a.toNat = 0xF0 → 0x90 ≤ b.toNat) ∧
      (a.toNat = 0xF4 → b.toNat ≤ 0x8F) := by
  simp only [admitsSecond, continues, UInt8.le_iff_toNat_le, ← UInt8.toNat_inj, UInt8.reduceToNat]
  split_ifs <;> simp only [Bool.and_eq_true, decide_eq_true_eq] <;> omega

theorem width_eq_one_iff : width a = .one ↔ a.toNat ≤ 0x7F := by
  simp only [width, UInt8.le_iff_toNat_le, UInt8.reduceToNat]
  split_ifs <;> simp_all

theorem width_eq_two_iff : width a = .two ↔ 0xC2 ≤ a.toNat ∧ a.toNat ≤ 0xDF := by
  simp only [width, UInt8.le_iff_toNat_le, UInt8.reduceToNat, Bool.and_eq_true, decide_eq_true_eq]
  split_ifs <;> simp <;> omega

theorem width_eq_three_iff : width a = .three ↔ 0xE0 ≤ a.toNat ∧ a.toNat ≤ 0xEF := by
  simp only [width, UInt8.le_iff_toNat_le, UInt8.reduceToNat, Bool.and_eq_true, decide_eq_true_eq]
  split_ifs <;> simp <;> omega

theorem width_eq_four_iff : width a = .four ↔ 0xF0 ≤ a.toNat ∧ a.toNat ≤ 0xF4 := by
  simp only [width, UInt8.le_iff_toNat_le, UInt8.reduceToNat, Bool.and_eq_true, decide_eq_true_eq]
  split_ifs <;> simp <;> omega

end

/-! ## Sequences -/

/-- The sequences of bytes that the decoder takes, with the code points that they stand for. -/
inductive Sequence : Bytes → ℕ → Prop
  | one {a : UInt8} (hw : width a = .one) : Sequence [a] a.toNat
  | two {a b : UInt8} (hw : width a = .two) (hb : continues b) :
      Sequence [a, b] (a.toNat % 32 * 64 + payload b)
  | three {a b c : UInt8} (hw : width a = .three) (hb : admitsSecond a b) (hc : continues c) :
      Sequence [a, b, c] ((a.toNat % 16 * 64 + payload b) * 64 + payload c)
  | four {a b c d : UInt8} (hw : width a = .four) (hb : admitsSecond a b) (hc : continues c)
      (hd : continues d) :
      Sequence [a, b, c, d]
        (((a.toNat % 8 * 64 + payload b) * 64 + payload c) * 64 + payload d)

variable {bytes rest : Bytes} {n index : ℕ} {read chars : List Char}

/-- A sequence is the encoding of its code point. -/
theorem Sequence.encode_eq (h : Sequence bytes n) :
    String.utf8EncodeChar (Char.ofNat n) = bytes := by
  have hchar : n.isValidChar → (Char.ofNat n).val.toNat = n := fun hv => by
    rw [Char.ofNat, dif_pos hv]
    rfl
  cases h with
  | @one a hw =>
    have ha := width_eq_one_iff.mp hw
    have hn := hchar (Or.inl (by omega))
    simp only [String.utf8EncodeChar, hn]
    rw [if_pos ha, UInt8.ofNat_toNat]
  | @two a b hw hb =>
    have ha := width_eq_two_iff.mp hw
    have hb := continues_iff.mp hb
    unfold payload at hchar ⊢
    have hn := hchar (Or.inl (by omega))
    simp only [String.utf8EncodeChar, hn]
    rw [if_neg (by omega), if_pos (by omega), ofNat_eq (a := a) (by omega),
      ofNat_eq (a := b) (by omega)]
  | @three a b c hw hb hc =>
    have ha := width_eq_three_iff.mp hw
    have hb := admitsSecond_iff.mp hb
    have hc := continues_iff.mp hc
    unfold payload at hchar ⊢
    have hn := hchar (by unfold Nat.isValidChar; omega)
    simp only [String.utf8EncodeChar, hn]
    rw [if_neg (by omega), if_neg (by omega), if_pos (by omega), ofNat_eq (a := a) (by omega),
      ofNat_eq (a := b) (by omega), ofNat_eq (a := c) (by omega)]
  | @four a b c d hw hb hc hd =>
    have ha := width_eq_four_iff.mp hw
    have hb := admitsSecond_iff.mp hb
    have hc := continues_iff.mp hc
    have hd := continues_iff.mp hd
    unfold payload at hchar ⊢
    have hn := hchar (by unfold Nat.isValidChar; omega)
    simp only [String.utf8EncodeChar, hn]
    rw [if_neg (by omega), if_neg (by omega), if_neg (by omega), ofNat_eq (a := a) (by omega),
      ofNat_eq (a := b) (by omega), ofNat_eq (a := c) (by omega), ofNat_eq (a := d) (by omega)]

/-- The encoding of a character is a sequence that stands for it. -/
theorem sequence_encode (c : Char) : Sequence (String.utf8EncodeChar c) c.toNat := by
  have hvalid : c.toNat.isValidChar := c.valid
  have hbyte : ∀ {n : ℕ}, n < 256 → (UInt8.ofNat n).toNat = n := UInt8.toNat_ofNat_of_lt'
  unfold Nat.isValidChar at hvalid
  unfold String.utf8EncodeChar
  simp only [show c.val.toNat = c.toNat from rfl]
  generalize c.toNat = v at hvalid
  -- the bytes carry the digits of the number to the base 64, and put it together again
  have hlast := hbyte (show v % 64 + 0x80 < 256 by omega)
  have hthird := hbyte (show v / 64 % 64 + 0x80 < 256 by omega)
  split_ifs with hone htwo hthree
  · have ha := hbyte (show v < 256 by omega)
    have h := Sequence.one (width_eq_one_iff.mpr (ha ▸ hone))
    rwa [ha] at h
  · have ha := hbyte (show v / 64 % 32 + 0xC0 < 256 by omega)
    have h := Sequence.two (width_eq_two_iff.mpr (by rw [ha]; omega))
      (continues_iff.mpr (by rw [hlast]; omega))
    have hv : (v / 64 % 32 + 0xC0) % 32 * 64 + (v % 64 + 0x80) % 64 = v := by omega
    rwa [payload, ha, hlast, hv] at h
  · have ha := hbyte (show v / 4096 % 16 + 0xE0 < 256 by omega)
    have h := Sequence.three (a := UInt8.ofNat (v / 4096 % 16 + 0xE0))
      (b := UInt8.ofNat (v / 64 % 64 + 0x80)) (c := UInt8.ofNat (v % 64 + 0x80))
      (width_eq_three_iff.mpr (by rw [ha]; omega))
      (admitsSecond_iff.mpr (by rw [ha, hthird]; omega)) (continues_iff.mpr (by rw [hlast]; omega))
    have hv : ((v / 4096 % 16 + 0xE0) % 16 * 64 + (v / 64 % 64 + 0x80) % 64) * 64 +
        (v % 64 + 0x80) % 64 = v := by omega
    rwa [payload, payload, ha, hthird, hlast, hv] at h
  · have ha := hbyte (show v / 262144 % 8 + 0xF0 < 256 by omega)
    have hb := hbyte (show v / 4096 % 64 + 0x80 < 256 by omega)
    have h := Sequence.four (a := UInt8.ofNat (v / 262144 % 8 + 0xF0))
      (b := UInt8.ofNat (v / 4096 % 64 + 0x80)) (c := UInt8.ofNat (v / 64 % 64 + 0x80))
      (d := UInt8.ofNat (v % 64 + 0x80)) (width_eq_four_iff.mpr (by rw [ha]; omega))
      (admitsSecond_iff.mpr (by rw [ha, hb]; omega)) (continues_iff.mpr (by rw [hthird]; omega))
      (continues_iff.mpr (by rw [hlast]; omega))
    have hv : (((v / 262144 % 8 + 0xF0) % 8 * 64 + (v / 4096 % 64 + 0x80) % 64) * 64 +
        (v / 64 % 64 + 0x80) % 64) * 64 + (v % 64 + 0x80) % 64 = v := by omega
    rwa [payload, payload, payload, ha, hb, hthird, hlast, hv] at h

/-! ## The decoder -/

/-- The decoder takes a sequence. -/
theorem decodeFrom_sequence (h : Sequence bytes n) (index : ℕ) (read : List Char) (rest : Bytes) :
    decodeFrom index read (bytes ++ rest) =
      decodeFrom (index + bytes.length) (Char.ofNat n :: read) rest := by
  cases h with
  | one hw => rw [List.singleton_append, decodeFrom.eq_def]; simp only [hw]; rfl
  | two hw hb =>
    show decodeFrom index read (_ :: _ :: rest) = _
    rw [decodeFrom.eq_def]
    simp [hw, hb]
  | three hw hb hc =>
    show decodeFrom index read (_ :: _ :: _ :: rest) = _
    rw [decodeFrom.eq_def]
    simp [hw, hb, hc]
  | four hw hb hc hd =>
    show decodeFrom index read (_ :: _ :: _ :: _ :: rest) = _
    rw [decodeFrom.eq_def]
    simp [hw, hb, hc, hd]

theorem decodeFrom_flatMap (text : List Char) (index : ℕ) (read : List Char) :
    decodeFrom index read (text.flatMap String.utf8EncodeChar) = .ok (read.reverse ++ text) := by
  induction text generalizing index read with
  | nil => rw [List.flatMap_nil, decodeFrom, List.append_nil]
  | cons c rest ih =>
    rw [List.flatMap_cons, decodeFrom_sequence (sequence_encode c), Char.ofNat_toNat, ih]
    simp

/-- What the decoder reads is what the bytes are the encoding of. -/
theorem flatMap_of_decodeFrom (h : decodeFrom index read bytes = .ok chars) :
    ∃ text, chars = read.reverse ++ text ∧ text.flatMap String.utf8EncodeChar = bytes := by
  have hcons : ∀ {n : ℕ} {front rest : Bytes} {read : List Char}, Sequence front n →
      (∃ text, chars = (Char.ofNat n :: read).reverse ++ text ∧
        text.flatMap String.utf8EncodeChar = rest) →
      ∃ text, chars = read.reverse ++ text ∧
        text.flatMap String.utf8EncodeChar = front ++ rest := by
    rintro n front rest read hs ⟨text, rfl, rfl⟩
    exact ⟨Char.ofNat n :: text, by simp, by rw [List.flatMap_cons, hs.encode_eq]⟩
  fun_induction decodeFrom index read bytes with
  | case1 index read =>
    cases h
    exact ⟨[], by simp, rfl⟩
  | case2 index read a rest hw ih => exact hcons (.one hw) (ih h)
  | case4 index read a b rest hw hb ih => exact hcons (.two hw (by simpa using hb)) (ih h)
  | case10 index read a b c rest hw hb hc ih =>
    exact hcons (.three hw (by simpa using hb) (by simpa using hc)) (ih h)
  | case17 index read a b c d rest hw hb hc hd ih =>
    exact hcons (.four hw (by simpa using hb) (by simpa using hc) (by simpa using hd)) (ih h)
  | _ => cases h

theorem decode_encode (text : String) : decode (encode text) = .ok text := by
  rw [decode, encode, decodeFrom_flatMap]
  exact congrArg Except.ok (String.ofList_toList)

/-- The bytes that are read as a text are its encoding. -/
theorem decode_eq_ok_iff {text : String} : decode bytes = .ok text ↔ encode text = bytes := by
  refine ⟨fun h => ?_, fun h => h ▸ decode_encode text⟩
  cases hchars : decodeFrom 0 [] bytes with
  | error e => simp [decode, hchars, Except.map] at h
  | ok chars =>
    obtain ⟨read, rfl, hread⟩ := flatMap_of_decodeFrom hchars
    simp only [decode, hchars, Except.map, Except.ok.injEq] at h
    rw [← h, encode, ← hread]
    simp

/-! ## Bytes that are no text -/

/-- Bytes that are a text are read as it. -/
theorem lossy_of_decode {text : String} (h : decode bytes = .ok text) : lossy bytes = text := by
  unfold lossy
  split
  · rename_i other hother
    exact Except.ok.inj (hother.symm.trans h)
  · rename_i e he
    rw [h] at he
    cases he

/-- Bytes that are no text are read with a replacement character. -/
theorem replacement_mem_lossy (h : (decode bytes).toOption = none) :
    '\uFFFD' ∈ (lossy bytes).toList := by
  unfold lossy
  split
  · rename_i text htext
    simp [htext, Except.toOption] at h
  · split <;> simp

end BlobStore.Utf8
