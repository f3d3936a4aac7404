import Abacus.Operator
import Abacus.Value.Cells

/-!
# Evaluation errors

Everything that can go wrong when a value is evaluated, with its wording. A failed evaluation is an
error value like any other; only its message tells the cause.

Model of `EvalErrorKind` with its texts (`EvalError.message`) and of the functions that make the
error value of each kind, from `division_by_zero` to `cell_violation` (`EvalError.toValue`).
-/

namespace Abacus

/-- An operation whose result may be out of range. -/
inductive Operation where
  | binary (op : Operator)
  | negation
  deriving DecidableEq, Repr

/-- What an operation is called. -/
def Operation.name : Operation → String
  | binary op => op.name
  | negation => "negation"

/-- The cause of a failed evaluation. -/
inductive EvalError where
  | divisionByZero
  | nonNumberOperand
  /-- The first cell of an S-expression is no symbol. -/
  | badHead
  | unknownOperator (symbol : String)
  /-- A result outside the range of numbers. -/
  | integerOverflow (operation : Operation)
  | missingOperands (op : Operator)
  /-- A refused access to cells. -/
  | cell (error : CellError)
  deriving DecidableEq, Repr

namespace EvalError

/-- The message of an error value with the given cause. -/
def message : EvalError → String
  | divisionByZero => "Division By Zero"
  | nonNumberOperand => "Cannot operator on non number!"
  | badHead => "S-expression Does not start with symbol"
  | unknownOperator symbol => "unknown operator '" ++ symbol ++ "'"
  | integerOverflow operation => "integer overflow in " ++ operation.name
  | missingOperands op => "operator '" ++ op.symbol ++ "' needs at least one argument"
  | cell error => "internal error: " ++ error.message

/-- The error value with the given cause. -/
def toValue (e : EvalError) : Value := .error e.message

end EvalError

end Abacus
