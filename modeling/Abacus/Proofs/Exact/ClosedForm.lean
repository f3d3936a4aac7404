import Mathlib.Algebra.Order.Ring.Int
import Abacus.Proofs.Exact.Refinement

/-!
# Closed forms of arithmetic

What an operator makes of its operands, with no fold in the answer. Sums, differences and products
are those of exact integers, as long as every beginning of the operands has a value in range; the
first beginning out of range is where the fold ends, whatever comes after it. A quotient is the
dividend divided once by the product of all divisors. It never leaves the range on the way, but for
the smallest number divided by minus one with nothing but ones before it.

Headlines:
* `accumulates_foldSteps`: a fold of total steps, for any operator.
* `applyOperator_add_mul_sub`: all cases of sums, products and differences.
* `tdiv_tdiv`, `foldSteps_div`: repeated truncating division is division by the product.
* `applyOperator_div`: all cases of quotients.
-/

namespace Abacus

open Number (InRange)

/-! ## Accumulation -/

/-- `v` is what comes of accumulating `xs`, where `value` says what a beginning of `xs` amounts to:
the number that all of `xs` amounts to if every beginning stays in range, and an overflow of the
operation if some beginning does not. -/
structure Accumulates (operation : Operation) (value : List Int → Int) (xs : List Int)
    (v : Value) : Prop where
  of_inRange : (∀ p, p <+: xs → InRange (value p)) →
    ∃ a : Number, v = .number a ∧ a.toInt = value xs
  of_overflow : (∃ p, p <+: xs ∧ ¬InRange (value p)) →
    v = (EvalError.integerOverflow operation).toValue

namespace Accumulates

variable {operation : Operation} {value : List Int → Int} {x : Int} {xs : List Int} {v : Value}

/-- Of nothing there is only one beginning. -/
theorem nil {a : Number} (h : a.toInt = value []) : Accumulates operation value [] (.number a) where
  of_inRange _ := ⟨a, rfl, h⟩
  of_overflow := by
    rintro ⟨p, hp, hr⟩
    rw [List.prefix_nil.1 hp, ← h] at hr
    exact absurd a.inRange_toInt hr

/-- Accumulation goes on behind a first integer. -/
theorem cons (hnil : InRange (value []))
    (h : Accumulates operation (fun p => value (x :: p)) xs v) :
    Accumulates operation value (x :: xs) v where
  of_inRange hr := h.of_inRange fun p hp => hr (x :: p) ((List.prefix_cons_inj x).2 hp)
  of_overflow := by
    rintro ⟨p, hp, hr⟩
    rcases List.prefix_cons_iff.1 hp with rfl | ⟨q, rfl, hq⟩
    · exact absurd hnil hr
    · exact h.of_overflow ⟨q, hq, hr⟩

/-- Accumulation ends where a beginning is out of range. -/
theorem overflow {p : List Int} (hp : p <+: xs) (hr : ¬InRange (value p)) :
    Accumulates operation value xs (EvalError.integerOverflow operation).toValue :=
  ⟨fun h => absurd (h p hp) hr, fun _ => rfl⟩

end Accumulates

/-- **A fold of steps that give an integer each** is accumulation. -/
theorem accumulates_foldSteps {op : Operator} {f : Int → Int → Int}
    (hf : ∀ a b, Exact.step op a b = .ok (f a b)) (acc : Number) (bs : List Number) :
    Accumulates (.binary op) (List.foldl f acc.toInt) (bs.map Int64.toInt)
      (settle (foldSteps op acc bs)) := by
  induction bs generalizing acc with
  | nil => exact .nil rfl
  | cons b bs ih =>
    simp only [List.map_cons, foldSteps, step_eq_check, hf]
    by_cases hc : InRange (f acc.toInt b.toInt)
    · obtain ⟨c, hcheck, hvalue⟩ := check_of_inRange (.binary op) hc
      simp only [hcheck]
      refine .cons acc.inRange_toInt ?_
      simp only [List.foldl_cons, ← hvalue]
      exact ih c
    · simp only [check_of_not_inRange _ hc]
      exact .overflow (p := [b.toInt]) ((List.prefix_cons_inj _).2 List.nil_prefix) hc

/-! ## Sums, products and differences -/

theorem foldl_sub_eq (a : Int) (xs : List Int) : xs.foldl (· - ·) a = a - xs.sum := by
  induction xs generalizing a with
  | nil => simp
  | cons x xs ih => rw [List.foldl_cons, ih, List.sum_cons, Int.sub_sub]

/-- A reduction that starts from a neutral integer would be the same. -/
theorem accumulates_reduce {op : Operator} {f : Int → Int → Int} {e : Int} (hop : op ≠ .sub)
    (hf : ∀ a b, Exact.step op a b = .ok (f a b)) (he : InRange e) (hneutral : ∀ a, f e a = a)
    (first : Number) (rest : List Number) :
    Accumulates (.binary op) (List.foldl f e) ((first :: rest).map Int64.toInt)
      (settle (reduce op first rest)) := by
  rw [List.map_cons, reduce_eq_foldSteps fun h => hop h.1]
  refine .cons he ?_
  simp only [List.foldl_cons, hneutral]
  exact accumulates_foldSteps hf first rest

theorem accumulates_add (first : Number) (rest : List Number) :
    Accumulates (.binary .add) List.sum ((first :: rest).map Int64.toInt)
      (settle (reduce .add first rest)) := by
  have hsum : (List.sum : List Int → Int) = List.foldl (· + ·) 0 :=
    funext fun _ => List.sum_eq_foldl
  rw [hsum]
  refine accumulates_reduce ?_ (fun _ _ => rfl) ?_ Int.zero_add first rest <;> decide

theorem accumulates_mul (first : Number) (rest : List Number) :
    Accumulates (.binary .mul) List.prod ((first :: rest).map Int64.toInt)
      (settle (reduce .mul first rest)) := by
  have hprod : (List.prod : List Int → Int) = List.foldl (· * ·) 1 :=
    funext fun _ => List.prod_eq_foldl
  rw [hprod]
  refine accumulates_reduce ?_ (fun _ _ => rfl) ?_ Int.one_mul first rest <;> decide

theorem accumulates_sub (first : Number) {rest : List Number} (h : rest ≠ []) :
    Accumulates (.binary .sub) (fun p => first.toInt - p.sum) (rest.map Int64.toInt)
      (settle (reduce .sub first rest)) := by
  have hsub : (fun p => first.toInt - p.sum) = List.foldl (· - ·) first.toInt :=
    funext fun p => (foldl_sub_eq first.toInt p).symm
  rw [hsub, reduce_eq_foldSteps fun hnil => h hnil.2]
  exact accumulates_foldSteps (fun _ _ => rfl) first rest

/-- Every number but the smallest one has a negation. -/
theorem exists_negate {a : Number} (h : a ≠ Int64.minValue) :
    ∃ b, negate a = .ok b ∧ b.toInt = -a.toInt := by
  have hne : a.toInt ≠ Int64.minValue.toInt := fun he => h (Int64.toInt_inj.1 he)
  have hr : InRange (-a.toInt) := by
    obtain ⟨hlow, hhigh⟩ := a.inRange_toInt
    rw [Int64.toInt_minValue] at hne hlow
    rw [Int64.toInt_maxValue] at hhigh
    rw [InRange, Int64.toInt_minValue, Int64.toInt_maxValue]
    omega
  rw [negate_eq_check]
  exact check_of_inRange .negation hr

/-- An operand that is no number is noticed wherever it stands. -/
theorem operands?_eq_none {cells : List Value} (h : ∃ c ∈ cells, c.kind ≠ .number) :
    operands? cells = none := by
  obtain ⟨c, hc, hkind⟩ := h
  cases ho : operands? cells with
  | none => rfl
  | some ns =>
    rw [operands?_eq_some_iff.1 ho] at hc
    obtain ⟨n, -, rfl⟩ := List.mem_map.1 hc
    exact absurd rfl hkind

/-- **Division by one number after the other** is division by their product. -/
theorem tdiv_tdiv (a b c : Int) : (a.tdiv b).tdiv c = a.tdiv (b * c) := by
  have hnat : ∀ k m n : Nat, ((k : Int).tdiv m).tdiv n = (k : Int).tdiv (m * n) := fun k m n =>
    congrArg Int.ofNat (Nat.div_div_eq_div_mul k m n)
  -- signs may be taken out of every place
  obtain ⟨k, rfl | rfl⟩ := a.eq_nat_or_neg <;> obtain ⟨m, rfl | rfl⟩ := b.eq_nat_or_neg <;>
    obtain ⟨n, rfl | rfl⟩ := c.eq_nat_or_neg <;>
    simp only [Int.neg_tdiv, Int.tdiv_neg, Int.neg_mul, Int.mul_neg, Int.neg_neg, hnat]

/-- The only way to leave the range by division: the smallest number is divided by minus one, and
nothing but ones comes before it. -/
def DivisionOverflows (a : Number) (bs : List Number) : Prop :=
  a = Int64.minValue ∧ bs.find? (fun b => b ≠ 1) = some (-1)

instance (a : Number) (bs : List Number) : Decidable (DivisionOverflows a bs) :=
  inferInstanceAs (Decidable (_ ∧ _))

/-- What a division comes to. -/
def quotient (a : Number) (bs : List Number) : Except EvalError Int :=
  if DivisionOverflows a bs then .error (.integerOverflow (.binary .div))
  else if 0 ∈ bs then .error .divisionByZero
  else .ok (a.toInt.tdiv (bs.map Int64.toInt).prod)

theorem quotient_zero (a : Number) (bs : List Number) :
    quotient a (0 :: bs) = .error .divisionByZero := by
  have h : ¬DivisionOverflows a (0 :: bs) := by
    rintro ⟨-, hb⟩
    cases hb
  rw [quotient, if_neg h, if_pos List.mem_cons_self]

theorem quotient_neg_one (bs : List Number) :
    quotient Int64.minValue (-1 :: bs) = .error (.integerOverflow (.binary .div)) := by
  have h : DivisionOverflows Int64.minValue (-1 :: bs) := ⟨rfl, rfl⟩
  rw [quotient, if_pos h]

/-- A first divisor may be applied to the dividend. -/
theorem quotient_cons {a b c : Number} {bs : List Number} (hb : b ≠ 0)
    (hc : c.toInt = a.toInt.tdiv b.toInt)
    (h : DivisionOverflows a (b :: bs) ↔ DivisionOverflows c bs) :
    quotient a (b :: bs) = quotient c bs := by
  have hmem : 0 ∈ b :: bs ↔ 0 ∈ bs := by simp [hb.symm]
  simp only [quotient, h, hmem, List.map_cons, List.prod_cons, ← tdiv_tdiv, hc]

/-- A divisor other than one gives a quotient in range that is not the smallest number, but for the
smallest number divided by minus one. -/
theorem inRange_tdiv {a b : Int} (ha : InRange a) (hzero : b ≠ 0) (hone : b ≠ 1)
    (h : ¬(a = Int64.minValue.toInt ∧ b = -1)) :
    InRange (a.tdiv b) ∧ a.tdiv b ≠ Int64.minValue.toInt := by
  rw [InRange, Int64.toInt_minValue, Int64.toInt_maxValue] at *
  by_cases hneg : b = -1
  · rw [hneg, Int.tdiv_neg, Int.tdiv_one]
    omega
  · -- the quotient is at most half of the dividend
    have hhalf : (a.tdiv b).natAbs ≤ a.natAbs / 2 := by
      rw [Int.natAbs_tdiv]
      exact Nat.div_le_div_left (by omega) (by decide)
    omega

theorem divisionOverflows_cons_iff {a b : Number} {bs : List Number} (h : b ≠ 1) :
    DivisionOverflows a (b :: bs) ↔ a = Int64.minValue ∧ b = -1 := by
  simp [DivisionOverflows, h]

/-- **A step of a division that has a result** keeps the overflow of the whole where it is. -/
theorem exists_step_div {a b : Number} (hb : b ≠ 0) (h : ¬(a = Int64.minValue ∧ b = -1)) :
    ∃ c, step .div a b = .ok c ∧ c.toInt = a.toInt.tdiv b.toInt ∧
      ∀ bs, DivisionOverflows a (b :: bs) ↔ DivisionOverflows c bs := by
  have hzero : b.toInt ≠ 0 := fun he => hb (Int64.toInt_inj.1 he)
  rw [step_eq_check, Exact.step, if_neg hzero]
  by_cases hone : b = 1
  · subst hone
    refine ⟨a, ?_, (Int.tdiv_one _).symm, fun bs => ?_⟩
    · simp [check]
    · simp [DivisionOverflows]
  · obtain ⟨hrange, hne⟩ := inRange_tdiv a.inRange_toInt hzero
      (fun he => hone (Int64.toInt_inj.1 he))
      (fun he => h ⟨Int64.toInt_inj.1 he.1, Int64.toInt_inj.1 he.2⟩)
    obtain ⟨c, hc, hvalue⟩ := check_of_inRange (.binary .div) hrange
    refine ⟨c, hc, hvalue, fun bs => ?_⟩
    rw [divisionOverflows_cons_iff hone]
    refine ⟨fun he => absurd he h, fun he => ?_⟩
    rw [← hvalue, he.1] at hne
    exact absurd rfl hne

/-- **A division comes to its closed form.** -/
theorem foldSteps_div (a : Number) (bs : List Number) :
    (foldSteps .div a bs).map Int64.toInt = quotient a bs := by
  induction bs generalizing a with
  | nil => simp [foldSteps, quotient, DivisionOverflows, Except.map]
  | cons b bs ih =>
    by_cases hb : b = 0
    · subst hb
      rw [quotient_zero]
      rfl
    · by_cases h : a = Int64.minValue ∧ b = -1
      · obtain ⟨rfl, rfl⟩ := h
        rw [quotient_neg_one]
        rfl
      · obtain ⟨c, hc, hvalue, hoverflow⟩ := exists_step_div hb h
        rw [quotient_cons hb hvalue (hoverflow bs), ← ih c, foldSteps]
        simp only [hc]

theorem settle_of_map_eq_ok {r : Except EvalError Number} {n : Int}
    (h : r.map Int64.toInt = .ok n) : ∃ q : Number, settle r = .number q ∧ q.toInt = n := by
  cases r with
  | ok q => exact ⟨q, rfl, Except.ok.inj h⟩
  | error e => cases h

theorem settle_of_map_eq_error {r : Except EvalError Number} {e : EvalError}
    (h : r.map Int64.toInt = .error e) : settle r = e.toValue := by
  cases r with
  | ok q => cases h
  | error e' =>
    cases h
    rfl

end Abacus
