/-!
# Numbers

The numbers of the calculator are signed 64-bit integers. Arithmetic is checked: an operation is
carried out on exact integers and has a result only if that result is a number again.

Model of the payload of a number and of what is done with it: `checked_add`, `checked_sub`,
`checked_mul`, `checked_div` and `checked_neg` (`add?` and so on), `parse` of a numeral (`ofText?`)
and its display (`toText`).

Headlines:
* `Number.ofInt?_eq_some_iff`: a number stands for exactly its integer value.
* `Number.magnitude?_eq_some_iff`: digits are read exactly, however many there are.
-/

namespace Abacus

/-- A signed 64-bit integer. -/
abbrev Number := Int64

namespace Number

/-! ## Exact integers -/

/-- The number with the value `n`, if `n` lies in the 64-bit range. -/
def ofInt? (n : Int) : Option Number :=
  if Int64.minValue.toInt ≤ n ∧ n ≤ Int64.maxValue.toInt then some (Int64.ofInt n) else none

theorem ofInt?_eq_some_iff {n : Int} {a : Number} : ofInt? n = some a ↔ a.toInt = n := by
  unfold ofInt?
  split
  · next h =>
    rw [Int64.toInt_minValue, Int64.toInt_maxValue] at h
    rw [Option.some_inj, ← Int64.toInt_inj, Int64.toInt_ofInt_of_le h.1 (by omega)]
    exact eq_comm
  · next h =>
    constructor
    · intro h'
      cases h'
    · rintro rfl
      exact absurd ⟨a.minValue_le_toInt, a.toInt_le⟩ h

theorem ofInt?_eq_none_iff {n : Int} : ofInt? n = none ↔
    n < Int64.minValue.toInt ∨ Int64.maxValue.toInt < n := by
  unfold ofInt?
  split <;> simp only [reduceCtorEq, true_iff, false_iff] <;> omega

@[simp] theorem ofInt?_toInt (a : Number) : ofInt? a.toInt = some a :=
  ofInt?_eq_some_iff.2 rfl

/-! ## Checked arithmetic -/

/-- The sum, unless it overflows. -/
def add? (a b : Number) : Option Number := ofInt? (a.toInt + b.toInt)

/-- The difference, unless it overflows. -/
def sub? (a b : Number) : Option Number := ofInt? (a.toInt - b.toInt)

/-- The product, unless it overflows. -/
def mul? (a b : Number) : Option Number := ofInt? (a.toInt * b.toInt)

/-- The quotient truncated toward zero, unless the divisor is zero or the quotient overflows. -/
def div? (a b : Number) : Option Number :=
  if b = 0 then none else ofInt? (a.toInt.tdiv b.toInt)

/-- The negation, unless it overflows. -/
def neg? (a : Number) : Option Number := ofInt? (-a.toInt)

/-! ## Decimal text -/

/-- Decimal notation: a minus sign for negative numbers, no leading zeros. -/
def toText (a : Number) : String := a.toInt.repr

/-- Read decimal digits after the digits that made up `value`. There is no result if some
character is no digit or the value passes `limit`. -/
def readDigits? (limit : Nat) : List Char → (value : Nat) → Option Nat
  | [], value => some value
  | c :: cs, value =>
    if c.isDigit then
      let next := 10 * value + (c.toNat - '0'.toNat)
      if next ≤ limit then readDigits? limit cs next else none
    else none

/-- Read one or more decimal digits whose value is at most `limit`. -/
def magnitude? (limit : Nat) : List Char → Option Nat
  | [] => none
  | c :: cs => readDigits? limit (c :: cs) 0

/-- Read a numeral: at most one sign, then one or more ASCII digits and nothing else. There is no
result if the text has another form or its value is out of range. -/
def ofText? (text : String) : Option Number :=
  match text.toList with
  | '-' :: cs => (magnitude? Int64.minValue.toInt.natAbs cs).bind fun n => ofInt? (-(n : Int))
  | '+' :: cs => (magnitude? Int64.maxValue.toInt.natAbs cs).bind fun n => ofInt? n
  | cs => (magnitude? Int64.maxValue.toInt.natAbs cs).bind fun n => ofInt? n

private theorem le_ofDigitChars (cs : List Char) (value : Nat) :
    value ≤ Nat.ofDigitChars 10 cs value := by
  induction cs generalizing value with
  | nil => simp
  | cons c cs ih =>
    rw [Nat.ofDigitChars_cons]
    have := ih (10 * value + (c.toNat - '0'.toNat))
    omega

/-- Reading stops early only where the value is past the limit anyway. -/
theorem readDigits?_eq_some_iff {limit : Nat} {cs : List Char} {value n : Nat}
    (h : value ≤ limit) :
    readDigits? limit cs value = some n ↔
      (∀ c ∈ cs, c.isDigit) ∧ Nat.ofDigitChars 10 cs value = n ∧ n ≤ limit := by
  induction cs generalizing value with
  | nil =>
    simp only [readDigits?, Option.some_inj, List.not_mem_nil, false_implies, implies_true,
      Nat.ofDigitChars_nil, true_and]
    constructor
    · rintro rfl
      exact ⟨rfl, h⟩
    · exact And.left
  | cons c cs ih =>
    rw [Nat.ofDigitChars_cons]
    by_cases hc : c.isDigit = true
    · by_cases hn : 10 * value + (c.toNat - '0'.toNat) ≤ limit
      · simp only [readDigits?, hc, hn, if_true, ih hn, List.mem_cons, forall_eq_or_imp, true_and]
      · have hle := le_ofDigitChars cs (10 * value + (c.toNat - '0'.toNat))
        simp only [readDigits?, hc, hn, if_true, if_false, reduceCtorEq, false_iff, not_and]
        intro _ he
        omega
    · simp [readDigits?, hc]

/-- A magnitude is the exact value of one or more digits, kept within the limit. -/
theorem magnitude?_eq_some_iff {limit : Nat} {cs : List Char} {n : Nat} :
    magnitude? limit cs = some n ↔
      cs ≠ [] ∧ (∀ c ∈ cs, c.isDigit) ∧ Nat.ofDigitChars 10 cs 0 = n ∧ n ≤ limit := by
  cases cs with
  | nil => simp [magnitude?]
  | cons c cs => simp [magnitude?, readDigits?_eq_some_iff (Nat.zero_le limit)]

end Number

end Abacus
