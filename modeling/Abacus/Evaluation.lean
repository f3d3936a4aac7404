import Abacus.Arithmetic
import Abacus.Traversal
import Abacus.Tree.Reader

/-!
# Evaluation

Only S-expressions are reduced; every other value stands for itself. The cells of an S-expression
are all evaluated first. Then an error among them is the result, the first one if there are
several; otherwise the empty list stays as it is, a single cell stands for itself, and in a longer
list the first cell says which operator is applied to the others.

Model of `evaluate` with `eval_sexpr` (`reduceCells`), `call` and `eval_source`. The cells are
matched here, where `eval_sexpr` gets at them by `take` and `pop` and makes an error of a refused
access by `settle`. `Recorded.evaluate` goes that way, with the same results, and none of its
accesses is refused.

Out of scope: what is logged, and the growth of the stack (see `Traversal`).

Headline: `evaluate_sexpr`, the value of an S-expression is the reduction of the values of its
cells.
-/

namespace Abacus

/-! ## Reduction of evaluated cells -/

/-- Apply the operator named by `head` to `args`. -/
def call (head : Value) (args : List Value) : Value :=
  match head.symbol? with
  | none => EvalError.badHead.toValue
  | some symbol =>
    match Operator.ofSymbol? symbol with
    | none => (EvalError.unknownOperator symbol).toValue
    | some op => applyOperator op (.sexpr args)

/-- The value of an S-expression whose cells have been evaluated. -/
def reduceCells (cells : List Value) : Value :=
  match cells.find? Value.isError with
  | some error => error
  | none =>
    match cells with
    | [] => .sexpr []
    | [cell] => cell
    | head :: args => call head args

/-! ## Evaluation -/

/-- The cells of a value that are evaluated before it. -/
def Value.reducible : Value → List Value
  | sexpr cells => cells
  | _ => []

theorem Value.mem_cells_of_mem_reducible {v c : Value} (h : c ∈ v.reducible) :
    c ∈ nesting.parts v := by
  cases v with
  | sexpr cells => exact h
  | number _ | error _ | symbol _ | qexpr _ => cases h

/-- How values are taken apart to be evaluated. -/
def evaluation : Branching Value where
  parts := Value.reducible
  bounded := ⟨Value.nesting.size, fun _ _ h =>
    Value.nesting.size_lt_of_mem (Value.mem_cells_of_mem_reducible h)⟩

/-- The value of a node, given the values of the cells that are evaluated before it. -/
def reduceNode (v : Value) (results : List Value) : Value :=
  match v with
  | .sexpr _ => reduceCells results
  | v => v

/-- Evaluate a value. -/
def evaluate (v : Value) : Value := evaluation.fold reduceNode v

/-- Evaluate everything in a source as one S-expression. -/
def evalSource (source : String) : Except ParseError Value :=
  match Tree.readSource source with
  | .ok v => .ok (evaluate v)
  | .error e => .error e

/-! ## Laws -/

/-- **The value of an S-expression is the reduction of the values of its cells.** -/
theorem evaluate_sexpr (cells : List Value) :
    evaluate (.sexpr cells) = reduceCells (cells.map evaluate) :=
  evaluation.fold_eq reduceNode (.sexpr cells)

@[simp] theorem evaluate_number (n : Number) : evaluate (.number n) = .number n :=
  evaluation.fold_eq reduceNode (.number n)

@[simp] theorem evaluate_error (message : String) : evaluate (.error message) = .error message :=
  evaluation.fold_eq reduceNode (.error message)

@[simp] theorem evaluate_symbol (name : String) : evaluate (.symbol name) = .symbol name :=
  evaluation.fold_eq reduceNode (.symbol name)

@[simp] theorem evaluate_qexpr (cells : List Value) : evaluate (.qexpr cells) = .qexpr cells :=
  evaluation.fold_eq reduceNode (.qexpr cells)

end Abacus
