import Abacus.Evaluation

/-!
# Evaluation on exact integers

The rules of `evaluate` on integers of any size: nothing overflows, quotients are truncated toward
zero, and a zero divisor is still an error. An exact evaluation also lists the result of every
arithmetic step that it makes, one for each fold step and one for each negation, in the order in
which they are made. Steps are made wherever the rules reach, also beside an error that decides the
result in the end.

`Exact.step`, `Exact.foldSteps`, `Exact.reduce`, `Exact.applyOperator`, `Exact.call`,
`Exact.reduceCells` and `Exact.evaluate` are the definitions of the same names without the range
checks.
-/

namespace Abacus

/-! ## Exact values -/

/-- The result of an exact evaluation: a value, but for a number of any size. The cells of a list
are as they were written. -/
inductive ExactValue where
  | number (value : Int)
  | error (message : String)
  | symbol (name : String)
  | sexpr (cells : List Value)
  | qexpr (cells : List Value)
  deriving DecidableEq

/-- A value as an exact one. -/
def Value.exact : Value → ExactValue
  | .number n => .number n.toInt
  | .error message => .error message
  | .symbol name => .symbol name
  | .sexpr cells => .sexpr cells
  | .qexpr cells => .qexpr cells

namespace ExactValue

/-- Whether an exact value is an error. -/
def isError : ExactValue → Bool
  | error _ => true
  | _ => false

/-- The integer that an exact value is. -/
def number? : ExactValue → Option Int
  | number n => some n
  | _ => none

/-- The name of an exact value that is a symbol. -/
def symbol? : ExactValue → Option String
  | symbol name => some name
  | _ => none

end ExactValue

/-- The exact value of an error with the given cause. -/
def EvalError.toExact (e : EvalError) : ExactValue := .error e.message

/-- A result, with the results of the arithmetic steps that were made for it. -/
structure Traced (α : Type) where
  result : α
  steps : List Int

/-- Whether an integer is in the 64-bit range. -/
def Number.InRange (n : Int) : Prop := Int64.minValue.toInt ≤ n ∧ n ≤ Int64.maxValue.toInt

instance : DecidablePred Number.InRange := fun n => by
  unfold Number.InRange
  infer_instance

namespace Exact

/-! ## Arithmetic -/

/-- One step of a reduction. -/
def step (op : Operator) (a b : Int) : Except EvalError Int :=
  match op with
  | .add => .ok (a + b)
  | .sub => .ok (a - b)
  | .mul => .ok (a * b)
  | .div => if b = 0 then .error .divisionByZero else .ok (a.tdiv b)

/-- Combine `acc` with the operands one after another, up to the first step that fails. -/
def foldSteps (op : Operator) (acc : Int) : List Int → Traced (Except EvalError Int)
  | [] => ⟨.ok acc, []⟩
  | b :: bs =>
    match step op acc b with
    | .ok c => ⟨(foldSteps op c bs).result, c :: (foldSteps op c bs).steps⟩
    | .error e => ⟨.error e, []⟩

/-- Reduce one or more integers. Subtraction of a single integer negates it. -/
def reduce (op : Operator) (first : Int) (rest : List Int) : Traced (Except EvalError Int) :=
  if op = .sub ∧ rest = [] then ⟨.ok (-first), [-first]⟩ else foldSteps op first rest

/-- The result of a computation as an exact value. -/
def settle : Except EvalError Int → ExactValue
  | .ok n => .number n
  | .error e => e.toExact

/-- Apply an operator to cells. -/
def applyOperator (op : Operator) (cells : List ExactValue) : Traced ExactValue :=
  match cells.mapM ExactValue.number? with
  | none => ⟨EvalError.nonNumberOperand.toExact, []⟩
  | some [] => ⟨(EvalError.missingOperands op).toExact, []⟩
  | some (first :: rest) => ⟨settle (reduce op first rest).result, (reduce op first rest).steps⟩

/-! ## Evaluation -/

/-- Apply the operator named by `head` to `args`. -/
def call (head : ExactValue) (args : List ExactValue) : Traced ExactValue :=
  match head.symbol? with
  | none => ⟨EvalError.badHead.toExact, []⟩
  | some symbol =>
    match Operator.ofSymbol? symbol with
    | none => ⟨(EvalError.unknownOperator symbol).toExact, []⟩
    | some op => applyOperator op args

/-- The value of an S-expression whose cells have been evaluated. -/
def reduceCells (cells : List ExactValue) : Traced ExactValue :=
  match cells.find? ExactValue.isError with
  | some error => ⟨error, []⟩
  | none =>
    match cells with
    | [] => ⟨.sexpr [], []⟩
    | [cell] => ⟨cell, []⟩
    | head :: args => call head args

mutual

/-- Evaluate a value on exact integers. -/
def evaluate : Value → Traced ExactValue
  | .sexpr cells =>
    let reduced := reduceCells ((evaluateAll cells).map Traced.result)
    ⟨reduced.result, (evaluateAll cells).flatMap Traced.steps ++ reduced.steps⟩
  | v => ⟨v.exact, []⟩
termination_by structural v => v

/-- Evaluate every cell of a list. -/
def evaluateAll : List Value → List (Traced ExactValue)
  | [] => []
  | c :: cs => evaluate c :: evaluateAll cs
termination_by structural cells => cells

end

theorem evaluateAll_eq (cells : List Value) : evaluateAll cells = cells.map evaluate := by
  induction cells with
  | nil => rfl
  | cons c cs ih => rw [evaluateAll, ih, List.map_cons]

/-- A step out of range is listed even if a later one comes back. -/
example :
    evaluate (.sexpr [.symbol "+", .number 9223372036854775807, .number 1, .number (-1)]) =
      ⟨.number 9223372036854775807, [9223372036854775808, 9223372036854775807]⟩ := by
  rfl

end Exact

end Abacus
