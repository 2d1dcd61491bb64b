import BlobStore.Proofs.Content
import BlobStore.Proofs.Text.Utf8

/-!
# Decimal numbers as contents

A number written in decimal digits is read back as itself, as long as it is in the range.

## Main results

* `Text.readInteger_toDigits`: reading undoes writing in decimal
* `Content.readAs_ofText_toString`: the same for a content
-/

namespace BlobStore

/-! ## Digits -/

namespace Text

theorem digit?_of_isDigit {c : Char} (h : c.isDigit = true) :
    digit? c = some (c.toNat - '0'.toNat) := by
  rw [Char.isDigit, Bool.and_eq_true, decide_eq_true_eq, decide_eq_true_eq] at h
  exact if_pos h

theorem toNat_of_isDigit {c : Char} (h : c.isDigit = true) : 48 ≤ c.toNat ∧ c.toNat ≤ 57 := by
  rw [Char.isDigit, Bool.and_eq_true, decide_eq_true_eq, decide_eq_true_eq] at h
  exact ⟨UInt32.le_iff_toNat_le.mp h.1, UInt32.le_iff_toNat_le.mp h.2⟩

theorem not_isBlank_of_isDigit {c : Char} (h : c.isDigit = true) : isBlank c = false := by
  obtain ⟨hl, hu⟩ := toNat_of_isDigit h
  simp only [isBlank, blankRanges, List.any_cons, List.any_nil, Bool.or_false, Bool.or_eq_false_iff,
    Bool.and_eq_false_iff, decide_eq_false_iff_not]
  omega

theorem dropWhile_of_not_isBlank {text : List Char} (h : ∀ c ∈ text, isBlank c = false) :
    text.dropWhile isBlank = text := by
  cases text with
  | nil => rfl
  | cons c rest => simp [h c List.mem_cons_self]

/-- There is nothing to trim where no character is blank. -/
theorem trim_of_not_isBlank {text : List Char} (h : ∀ c ∈ text, isBlank c = false) :
    trim text = text := by
  have hback : ∀ c ∈ text.reverse, isBlank c = false := by
    intro c hc
    exact h c (List.mem_reverse.mp hc)
  unfold trim
  rw [dropWhile_of_not_isBlank h, dropWhile_of_not_isBlank hback, List.reverse_reverse]

/-- A number does not get smaller by more digits. -/
theorem le_ofDigitChars (digits : List Char) (n : Nat) : n ≤ Nat.ofDigitChars 10 digits n := by
  rw [Nat.ofDigitChars_eq_ofDigitChars_zero]
  have hpow : 0 < 10 ^ digits.length := Nat.pow_pos (by decide)
  have := Nat.le_mul_of_pos_left n hpow
  omega

/-- Digits are read from the left; every number on the way is at most the last. -/
theorem readUp_digits (range : IntegerRange) {digits : List Char}
    (hd : ∀ c ∈ digits, c.isDigit = true) {n : Nat}
    (hn : (Nat.ofDigitChars 10 digits n : Int) ≤ range.greatest) :
    readUp range n digits = .ok (Nat.ofDigitChars 10 digits n : Int) := by
  induction digits generalizing n with
  | nil => simp [readUp]
  | cons c rest ih =>
    rw [Nat.ofDigitChars_cons] at hn ⊢
    have hnext : (n : Int) * 10 + ((c.toNat - '0'.toNat : Nat) : Int) =
        ((10 * n + (c.toNat - '0'.toNat) : Nat) : Int) := by
      push_cast
      omega
    have hle := le_ofDigitChars rest (10 * n + (c.toNat - '0'.toNat))
    have ihn := ih (fun d hd' => hd d (List.mem_cons_of_mem c hd')) hn
    simp only [readUp, digit?_of_isDigit (hd c List.mem_cons_self), hnext]
    rw [if_pos (by omega)]
    exact ihn

/-- Reading undoes writing in decimal. -/
theorem readInteger_toDigits {range : IntegerRange} {n : Nat} (hn : (n : Int) ≤ range.greatest) :
    readInteger range (Nat.toDigits 10 n) = .ok (n : Int) := by
  have hd : ∀ c ∈ Nat.toDigits 10 n, c.isDigit = true :=
    fun c hc => Nat.isDigit_of_mem_toDigits (by decide) (by decide) hc
  have hread := readUp_digits range hd (n := 0)
    (by rw [Nat.ofDigitChars_ten_toDigits]; exact hn)
  rw [Nat.ofDigitChars_ten_toDigits] at hread
  cases hdigits : Nat.toDigits 10 n with
  | nil => exact absurd hdigits Nat.toDigits_ne_nil
  | cons c rest =>
    rw [hdigits] at hd hread
    have hc := toNat_of_isDigit (hd c List.mem_cons_self)
    have hplus : c ≠ '+' := by rintro rfl; simp at hc
    have hminus : c ≠ '-' := by rintro rfl; simp at hc
    rw [← hread]
    unfold readInteger
    split <;> simp_all

end Text

/-! ## Contents -/

/-- A number in range, written out and stored as text, is read back as itself. -/
theorem Content.readAs_ofText_toString {range : Text.IntegerRange} {n : Nat}
    (hn : (n : Int) ≤ range.greatest) :
    (Content.ofText (toString n)).readAs (.integer range) = .ok (.integer n) := by
  have hdigits : (toString n).toList = Nat.toDigits 10 n := Nat.toList_repr
  have hd : ∀ c ∈ (toString n).toList, c.isDigit = true := by
    rw [hdigits]
    exact fun c hc => Nat.isDigit_of_mem_toDigits (by decide) (by decide) hc
  have htrim := Text.trim_of_not_isBlank fun c hc => Text.not_isBlank_of_isDigit (hd c hc)
  have hread : Text.readInteger range (Text.trim (toString n).toList) = .ok (n : Int) := by
    rw [htrim, hdigits]
    exact Text.readInteger_toDigits hn
  generalize toString n = digits at hread
  have hbytes : (ofText digits).drained = (.ok (Utf8.encode digits), []) := rfl
  simp [readAs, parsed, decoded, hbytes, Drained.andThen, Utf8.decode_encode, ScalarType.read,
    hread]

end BlobStore
