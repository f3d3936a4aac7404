import Abacus.Number

/-!
# Operators

The four arithmetic operators, their symbols and the names of the operations they stand for.

Model of `from_symbol` (`ofSymbol?`), `as_symbol` (`symbol`), `operation_name` (`name`) and `ALL`
(`all`).

Headline: `Operator.ofSymbol?_eq_some_iff`, a symbol resolves to the operator it is written for.
-/

namespace Abacus

/-- An arithmetic operator. -/
inductive Operator where
  | add
  | sub
  | mul
  | div
  deriving DecidableEq, Repr

namespace Operator

/-- All operators. -/
def all : List Operator := [add, sub, mul, div]

/-- How an operator is written. -/
def symbol : Operator → String
  | add => "+"
  | sub => "-"
  | mul => "*"
  | div => "/"

/-- The operation an operator stands for. -/
def name : Operator → String
  | add => "addition"
  | sub => "subtraction"
  | mul => "multiplication"
  | div => "division"

/-- The operator written as `symbol`. -/
def ofSymbol? (symbol : String) : Option Operator :=
  all.find? fun op => op.symbol = symbol

/-- The place of an operator in `all`. -/
def position (op : Operator) : Nat := all.idxOf op

@[simp] theorem ofSymbol?_symbol (op : Operator) : ofSymbol? op.symbol = some op := by
  cases op <;> decide

theorem ofSymbol?_eq_some_iff {s : String} {op : Operator} :
    ofSymbol? s = some op ↔ s = op.symbol := by
  constructor
  · intro h
    have := List.find?_some h
    simpa using (of_decide_eq_true this).symm
  · rintro rfl
    exact ofSymbol?_symbol op

/-- The checked operation of an operator on two numbers. -/
def checked : Operator → Number → Number → Option Number
  | add => Number.add?
  | sub => Number.sub?
  | mul => Number.mul?
  | div => Number.div?

end Operator

end Abacus
