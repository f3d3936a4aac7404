import Abacus.Evaluation

/-!
# Reducing evaluated cells

How the cells of an S-expression are reduced once they have been evaluated, without the order of
the checks: an error among the cells is the result, and `dispatch` says what becomes of cells that
are no errors.

Headlines:
* `reduceCells_of_find?`, `reduceCells_eq_dispatch`: the two ways a reduction goes.
* `isError_reduceCells`: an error among the cells makes the whole S-expression an error.
* `isOutcome_call`: an operator at work gives a number or an error and nothing else.
-/

namespace Abacus

/-- What becomes of evaluated cells none of which is an error. -/
def dispatch : List Value → Value
  | [] => .sexpr []
  | [cell] => cell
  | head :: args => call head args

theorem reduceCells_of_find? {cells : List Value} {error : Value}
    (h : cells.find? Value.isError = some error) : reduceCells cells = error := by
  unfold reduceCells
  rw [h]

theorem reduceCells_eq_dispatch {cells : List Value} (h : cells.find? Value.isError = none) :
    reduceCells cells = dispatch cells := by
  unfold reduceCells
  rw [h]
  match cells with
  | [] => rfl
  | [cell] => rfl
  | head :: arg :: args => rfl

/-- An error among the cells makes the whole S-expression an error. -/
theorem isError_reduceCells {cells : List Value} {c : Value} (hc : c ∈ cells)
    (he : c.isError = true) : (reduceCells cells).isError = true := by
  cases hf : cells.find? Value.isError with
  | some error =>
    rw [reduceCells_of_find? hf]
    exact List.find?_some hf
  | none => exact absurd he (List.find?_eq_none.1 hf c hc)

/-! ## What an operator gives -/

/-- A value that is a number or an error. -/
def Value.IsOutcome (v : Value) : Prop := (∃ n, v = .number n) ∨ ∃ message, v = .error message

theorem isOutcome_toValue (e : EvalError) : e.toValue.IsOutcome := .inr ⟨_, rfl⟩

theorem isOutcome_settle (r : Except EvalError Number) : (settle r).IsOutcome := by
  cases r with
  | ok n => exact .inl ⟨n, rfl⟩
  | error e => exact isOutcome_toValue e

theorem isOutcome_applyOperator (op : Operator) (args : Value) :
    (applyOperator op args).IsOutcome := by
  unfold applyOperator
  split
  · exact isOutcome_toValue _
  · split
    · exact isOutcome_toValue _
    · exact isOutcome_toValue _
    · exact isOutcome_settle _

/-- **A call gives a number or an error** and nothing else. -/
theorem isOutcome_call (head : Value) (args : List Value) : (call head args).IsOutcome := by
  unfold call
  split
  · exact isOutcome_toValue _
  · split
    · exact isOutcome_toValue _
    · exact isOutcome_applyOperator _ _

end Abacus
