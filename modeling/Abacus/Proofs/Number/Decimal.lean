import Abacus.Number

/-!
# Decimal notation

The characters a number is written with, and that they are read back as the same number.

Headlines:
* `toList_toText`: a minus sign for a negative number, and then the digits of its magnitude.
* `ofText?_toText`: every number is read back from its own notation, the extremes included.
-/

namespace Abacus.Number

theorem isDigit_of_mem_toDigits {n : Nat} {c : Char} (h : c ∈ Nat.toDigits 10 n) :
    c.isDigit = true :=
  Nat.isDigit_of_mem_toDigits (by decide) (by decide) h

/-- **A number is written as the digits of its magnitude**, after a minus sign if it is negative. -/
theorem toList_toText (a : Number) :
    a.toText.toList =
      if 0 ≤ a.toInt then Nat.toDigits 10 a.toInt.toNat
      else '-' :: Nat.toDigits 10 (-a.toInt).toNat := by
  rw [toText, Int.repr_eq_if]
  split
  · exact Nat.toList_repr
  · rw [String.toList_append, Nat.toList_repr]
    rfl

/-- The digits of a magnitude within the limit are read exactly. -/
theorem magnitude?_toDigits {limit n : Nat} (h : n ≤ limit) :
    magnitude? limit (Nat.toDigits 10 n) = some n :=
  magnitude?_eq_some_iff.2
    ⟨Nat.toDigits_ne_nil, fun _ => isDigit_of_mem_toDigits, Nat.ofDigitChars_ten_toDigits, h⟩

/-- Digits without a sign are read as a magnitude. -/
theorem ofText?_of_digits {text : String} {cs : List Char} (h : text.toList = cs)
    (hd : ∀ c ∈ cs, c.isDigit = true) :
    ofText? text = (magnitude? Int64.maxValue.toInt.natAbs cs).bind fun n => ofInt? n := by
  unfold ofText?
  rw [h]
  split
  · exact absurd (hd '-' List.mem_cons_self) (by decide)
  · exact absurd (hd '+' List.mem_cons_self) (by decide)
  · rfl

/-- **Every number is read back from its own notation.** -/
theorem ofText?_toText (a : Number) : ofText? a.toText = some a := by
  have hlist := toList_toText a
  split at hlist
  · next hn =>
    have hle := a.toInt_le
    rw [ofText?_of_digits hlist fun _ => isDigit_of_mem_toDigits, magnitude?_toDigits (by omega),
      Option.bind_some, Int.toNat_of_nonneg hn, ofInt?_toInt]
  · next hn =>
    have hle := a.minValue_le_toInt
    unfold ofText?
    rw [hlist]
    simp only
    rw [magnitude?_toDigits (by omega), Option.bind_some, Int.toNat_of_nonneg (by omega),
      Int.neg_neg, ofInt?_toInt]

end Abacus.Number
