import Abacus.Proofs.Value.RoundTrip
import Mathlib.Data.List.Induction
import Mathlib.Data.Nat.Digits.Defs

/-!
# How numbers are written and read

A numeral is at most one sign and then decimal digits, at least one. It may be of any length and have
zeros in front, and its value is an integer of any size. A node that is tagged as a number is read as
this value if it is a 64-bit integer, and as an error otherwise.

Headlines:
* `ofDigitChars_eq_decimal`: accumulating digits from the left gives their positional value.
* `ofText?_eq_some_iff`: a text is read as a number exactly if it is a numeral of that number.
* `read_numeral`: what a node is read as that is tagged as a number; the notation of every number is
  read as that number.
-/

namespace Abacus

namespace Number

/-! ## Numerals -/

/-- The value of decimal digits, where each counts ten times as much as the one behind it. -/
def decimal (ds : List Char) : Nat := Nat.ofDigits 10 (ds.reverse.map fun d => d.toNat - '0'.toNat)

/-- `IsNumeral cs n` says that `cs` is a numeral with the value `n`. -/
inductive IsNumeral : List Char → Int → Prop
  | unsigned {ds : List Char} (hne : ds ≠ []) (hds : ∀ d ∈ ds, d.isDigit = true) :
      IsNumeral ds (decimal ds)
  | plus {ds : List Char} (hne : ds ≠ []) (hds : ∀ d ∈ ds, d.isDigit = true) :
      IsNumeral ('+' :: ds) (decimal ds)
  | minus {ds : List Char} (hne : ds ≠ []) (hds : ∀ d ∈ ds, d.isDigit = true) :
      IsNumeral ('-' :: ds) (-(decimal ds : Int))

/-- **Accumulating digits from the left gives their positional value.** -/
theorem ofDigitChars_eq_decimal (ds : List Char) : Nat.ofDigitChars 10 ds 0 = decimal ds := by
  induction ds using List.reverseRecOn with
  | nil => rfl
  | append_singleton ds d ih =>
    rw [Nat.ofDigitChars_append, ih, Nat.ofDigitChars_cons, Nat.ofDigitChars_nil, decimal, decimal,
      List.reverse_append, List.reverse_singleton, List.singleton_append, List.map_cons,
      Nat.ofDigits_cons, Nat.add_comm]

/-! ## Reading numerals -/

/-- Digits are read exactly if no number has a larger magnitude than the limit. -/
theorem bind_magnitude?_eq_some_iff {limit : Nat} {f : Nat → Int} {ds : List Char} {a : Number}
    (hlimit : ∀ n, a.toInt = f n → n ≤ limit) :
    ((magnitude? limit ds).bind fun n => ofInt? (f n)) = some a ↔
      ds ≠ [] ∧ (∀ d ∈ ds, d.isDigit = true) ∧ a.toInt = f (decimal ds) := by
  simp only [Option.bind_eq_some_iff, magnitude?_eq_some_iff, ofDigitChars_eq_decimal,
    ofInt?_eq_some_iff]
  constructor
  · rintro ⟨n, ⟨hne, hds, rfl, -⟩, ha⟩
    exact ⟨hne, hds, ha⟩
  · rintro ⟨hne, hds, ha⟩
    exact ⟨decimal ds, ⟨hne, hds, rfl, hlimit _ ha⟩, ha⟩

/-- **A text is read as a number exactly if it is a numeral of that number.** -/
theorem ofText?_eq_some_iff {text : String} {a : Number} :
    ofText? text = some a ↔ IsNumeral text.toList a.toInt := by
  have hnegative : ∀ n : Nat, a.toInt = -(n : Int) → n ≤ Int64.minValue.toInt.natAbs := by
    have hlow := a.minValue_le_toInt
    rw [Int64.toInt_minValue] at hlow ⊢
    omega
  have hpositive : ∀ n : Nat, a.toInt = n → n ≤ Int64.maxValue.toInt.natAbs := by
    have hhigh := a.toInt_le
    rw [Int64.toInt_maxValue] at hhigh ⊢
    omega
  constructor
  · intro h
    unfold ofText? at h
    split at h
    · next ds hcs =>
      obtain ⟨hne, hds, ha⟩ := (bind_magnitude?_eq_some_iff hnegative).1 h
      rw [hcs, ha]
      exact .minus hne hds
    · next ds hcs =>
      obtain ⟨hne, hds, ha⟩ := (bind_magnitude?_eq_some_iff hpositive).1 h
      rw [hcs, ha]
      exact .plus hne hds
    · obtain ⟨hne, hds, ha⟩ := (bind_magnitude?_eq_some_iff hpositive).1 h
      rw [ha]
      exact .unsigned hne hds
  · intro h
    generalize hcs : text.toList = cs at h
    generalize ha : a.toInt = n at h
    cases h with
    | unsigned hne hds =>
      rw [ofText?_of_digits hcs hds]
      exact (bind_magnitude?_eq_some_iff hpositive).2 ⟨hne, hds, ha⟩
    | plus hne hds =>
      unfold ofText?
      rw [hcs]
      exact (bind_magnitude?_eq_some_iff hpositive).2 ⟨hne, hds, ha⟩
    | minus hne hds =>
      unfold ofText?
      rw [hcs]
      exact (bind_magnitude?_eq_some_iff hnegative).2 ⟨hne, hds, ha⟩

/-- The numbers are the integers in the 64-bit range. -/
theorem exists_toInt_eq_iff {n : Int} :
    (∃ a : Number, a.toInt = n) ↔ -2 ^ 63 ≤ n ∧ n ≤ 2 ^ 63 - 1 := by
  constructor
  · rintro ⟨a, rfl⟩
    exact ⟨a.minValue_le_toInt, a.toInt_le⟩
  · rintro ⟨hlow, hhigh⟩
    cases ho : ofInt? n with
    | some a => exact ⟨a, ofInt?_eq_some_iff.1 ho⟩
    | none =>
      rw [ofInt?_eq_none_iff, Int64.toInt_minValue, Int64.toInt_maxValue] at ho
      omega

/-- The longest notation has a sign and 19 digits. -/
theorem utf8ByteSize_toText_le (a : Number) : a.toText.utf8ByteSize ≤ 20 := by
  have hlow := a.minValue_le_toInt
  have hhigh := a.toInt_le
  rw [Int64.toInt_minValue] at hlow
  rw [Int64.toInt_maxValue] at hhigh
  have hlength : ∀ n < 10 ^ 19, (String.ofList (Nat.toDigits 10 n)).utf8ByteSize ≤ 19 := by
    intro n hn
    rw [Token.utf8ByteSize_ofList fun _ hc => Token.utf8Size_of_isDigit (isDigit_of_mem_toDigits hc)]
    exact (Nat.length_toDigits_le_iff (by decide) (by decide)).2 hn
  rw [← String.ofList_toList (s := a.toText), toList_toText]
  split
  · have := hlength a.toInt.toNat (by omega)
    omega
  · have := hlength (-a.toInt).toNat (by omega)
    have hminus : '-'.utf8Size = 1 := by decide
    rw [Token.utf8ByteSize_ofList_cons, hminus]
    omega

end Number

namespace Tree

variable {ι : Type}

theorem read_of_mentions_number {t : Tree ι} (h : Tag.mentions t.tag "number" = true) :
    t.read = readNumber t.contents := by
  rw [read_eq, readNode, Tag.role_eq_number_iff.2 h]

theorem readNumber_eq_number_iff {text : String} {a : Number} :
    readNumber text = .number a ↔ Number.IsNumeral text.toList a.toInt := by
  rw [← Number.ofText?_eq_some_iff, readNumber]
  cases Number.ofText? text <;> simp

theorem readNumber_eq_error_iff {text : String} :
    readNumber text = .error invalidNumber ↔
      ∀ a : Number, ¬Number.IsNumeral text.toList a.toInt := by
  simp only [← Number.ofText?_eq_some_iff, readNumber]
  cases Number.ofText? text <;> simp

/-- **Numerals are read exactly.** A node that is tagged as a number is read as `n` if and only if
its text is a numeral with the value `n` and `n` is in the 64-bit range. In every other case it is
read as an error. So the notation of each number is read as that number, by itself and as a source. -/
theorem read_numeral {t : Tree ι} (h : Tag.mentions t.tag "number" = true) :
    (∀ n : Int, (∃ a : Number, a.toInt = n ∧ t.read = .number a) ↔
      Number.IsNumeral t.contents.toList n ∧ -2 ^ 63 ≤ n ∧ n ≤ 2 ^ 63 - 1) ∧
    (t.read = .error "invalid number" ↔
      ∀ n : Int, ¬(Number.IsNumeral t.contents.toList n ∧ -2 ^ 63 ≤ n ∧ n ≤ 2 ^ 63 - 1)) ∧
    ∀ a : Number, (t.contents = (Value.number a).print → t.read = .number a) ∧
      readSource (Value.number a).print = .ok (.sexpr [.number a]) := by
  have hiff : ∀ n : Int, (∃ a : Number, a.toInt = n ∧ t.read = .number a) ↔
      Number.IsNumeral t.contents.toList n ∧ -2 ^ 63 ≤ n ∧ n ≤ 2 ^ 63 - 1 := by
    intro n
    rw [← Number.exists_toInt_eq_iff, read_of_mentions_number h]
    simp only [readNumber_eq_number_iff]
    constructor
    · rintro ⟨a, rfl, ha⟩
      exact ⟨ha, a, rfl⟩
    · rintro ⟨ha, a, rfl⟩
      exact ⟨a, rfl, ha⟩
  refine ⟨hiff, ?_, fun a => ⟨fun ht => ?_, ?_⟩⟩
  · have herror : t.read = .error "invalid number" ↔
        ∀ a : Number, ¬Number.IsNumeral t.contents.toList a.toInt := by
      rw [read_of_mentions_number h]
      exact readNumber_eq_error_iff
    rw [herror]
    simp only [← hiff, read_of_mentions_number h, readNumber_eq_number_iff]
    constructor
    · rintro hnone n ⟨a, -, ha⟩
      exact hnone a ha
    · exact fun hnone a ha => hnone a.toInt ⟨a, rfl, ha⟩
  · rw [read_of_mentions_number h, ht, Value.print_number, readNumber, Number.ofText?_toText]
  · have hsize := Number.utf8ByteSize_toText_le a
    refine readSource_print ?_ ⟨by simp, by simp⟩
    rw [Value.print_number, Span.limit]
    exact Nat.le_trans hsize (by decide)

/-- The smallest number is read, also with zeros in front. Its magnitude is no number itself. -/
theorem read_extreme_numerals :
    Tag.mentions "a number" "number" = true ∧
    (∃ a : Number, a.toInt = -2 ^ 63 ∧
      (Tree.mk "a number" "-0009223372036854775808" () []).read = .number a) ∧
    (Tree.mk "a number" "+9223372036854775808" () []).read = .error "invalid number" := by
  have h : Tag.mentions "a number" "number" = true := by decide
  have hdigits : ∀ d ∈ "0009223372036854775808".toList, d.isDigit = true :=
    List.all_eq_true.1 (by decide)
  have hvalue : Number.decimal "0009223372036854775808".toList = 2 ^ 63 := by decide
  have hminus : Number.IsNumeral "-0009223372036854775808".toList (-2 ^ 63) := by
    have := Number.IsNumeral.minus (by decide) hdigits
    rw [hvalue] at this
    exact this
  refine ⟨h, ((read_numeral h).1 _).2 ⟨hminus, by decide, by decide⟩, (read_numeral h).2.1.2 ?_⟩
  rintro n ⟨hn, -, hle⟩
  have hplus : "+9223372036854775808".toList = '+' :: "9223372036854775808".toList := by decide
  have hvalue : Number.decimal "9223372036854775808".toList = 2 ^ 63 := by decide
  rw [hplus] at hn
  cases hn with
  | unsigned _ hds => exact absurd (hds '+' List.mem_cons_self) (by decide)
  | plus _ _ =>
    rw [hvalue] at hle
    exact absurd hle (by decide)

end Tree

end Abacus
