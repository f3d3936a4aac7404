import Abacus.EvalError

/-!
# Operators at work

An operator is applied to all operands at once: every operand must be a number, and the numbers are
combined from left to right. The first step that fails decides the result.

Model of `apply_operator` (`applyOperator`) with its steps: `apply_checked`, `checked_arith` and
`checked_div` are `step`, and `checked_neg` is `negate`.

Out of scope: what is logged.

Headlines: `applyOperator_of_numbers`, the result is that of the reduction of the numbers;
`operands?_eq_some_iff`, there are operands exactly if every cell is a number.
-/

namespace Abacus

/-! ## One step -/

/-- One step of a reduction. A zero divisor is noticed before an overflow. -/
def step (op : Operator) (a b : Number) : Except EvalError Number :=
  if op = .div ∧ b = 0 then .error .divisionByZero
  else
    match op.checked a b with
    | some c => .ok c
    | none => .error (.integerOverflow (.binary op))

/-- The negation of a number. -/
def negate (a : Number) : Except EvalError Number :=
  match Number.neg? a with
  | some b => .ok b
  | none => .error (.integerOverflow .negation)

/-! ## Reduction -/

/-- Combine `acc` with the operands one after another, up to the first step that fails. -/
def foldSteps (op : Operator) (acc : Number) : List Number → Except EvalError Number
  | [] => .ok acc
  | b :: bs =>
    match step op acc b with
    | .ok c => foldSteps op c bs
    | .error e => .error e

/-- Reduce one or more numbers. Subtraction of a single number negates it. -/
def reduce (op : Operator) (first : Number) (rest : List Number) : Except EvalError Number :=
  if op = .sub ∧ rest = [] then negate first else foldSteps op first rest

/-- The numbers that the cells are, if every cell is a number. -/
def operands? (cells : List Value) : Option (List Number) := cells.mapM Value.number?

/-- The result of a computation as a value. -/
def settle : Except EvalError Number → Value
  | .ok n => .number n
  | .error e => e.toValue

/-- Apply an operator to the cells of `args`. -/
def applyOperator (op : Operator) (args : Value) : Value :=
  match args.cells with
  | .error e => (EvalError.cell e).toValue
  | .ok cells =>
    match operands? cells with
    | none => EvalError.nonNumberOperand.toValue
    | some [] => (EvalError.missingOperands op).toValue
    | some (first :: rest) => settle (reduce op first rest)

/-! ## Laws -/

theorem operands?_eq_some_iff {cells : List Value} {ns : List Number} :
    operands? cells = some ns ↔ cells = ns.map .number := by
  unfold operands?
  induction cells generalizing ns with
  | nil => cases ns <;> simp
  | cons c cs ih =>
    have hstep : (c :: cs).mapM Value.number? = some ns ↔
        ∃ m, c = .number m ∧ ∃ ms, cs = ms.map .number ∧ m :: ms = ns := by
      simp [List.mapM_cons, Option.bind_eq_some_iff, Value.number?_eq_some_iff, ih]
    rw [hstep]
    constructor
    · rintro ⟨m, rfl, ms, rfl, rfl⟩
      rfl
    · intro h
      cases ns with
      | nil => cases h
      | cons m ms =>
        obtain ⟨rfl, rfl⟩ := List.cons.inj h
        exact ⟨m, rfl, ms, rfl, rfl⟩

/-- Two reductions in a row are one. -/
theorem foldSteps_append (op : Operator) (acc : Number) (bs cs : List Number) :
    foldSteps op acc (bs ++ cs) =
      match foldSteps op acc bs with
      | .ok c => foldSteps op c cs
      | .error e => .error e := by
  induction bs generalizing acc with
  | nil => rfl
  | cons b bs ih =>
    simp only [List.cons_append, foldSteps]
    cases step op acc b with
    | ok c => exact ih c
    | error e => rfl

/-- Only the subtraction of a single number is not a fold. -/
theorem reduce_eq_foldSteps {op : Operator} {rest : List Number}
    (h : ¬(op = .sub ∧ rest = [])) (first : Number) :
    reduce op first rest = foldSteps op first rest := if_neg h

/-- The operator works on lists of either kind alike. -/
theorem applyOperator_of_numbers {op : Operator} {args : Value} {first : Number}
    {rest : List Number} (h : args.cells? = some (.number first :: rest.map .number)) :
    applyOperator op args = settle (reduce op first rest) := by
  have hc := Value.cells_eq_ok_iff.2 h
  have ho : operands? (.number first :: rest.map .number) = some (first :: rest) :=
    operands?_eq_some_iff.2 rfl
  simp only [applyOperator, hc, ho]

end Abacus
