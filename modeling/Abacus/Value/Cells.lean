import Abacus.Value

/-!
# Access to cells

Appending to a list, removing a cell from it and taking it apart. Every access to a value that is
no list, and every index past the end, is refused; a refused access leaves nothing changed because
no new value is given out.

Model of `CellError`, `push`, `pop`, `take` and `into_cells` (`cells`). A list that is changed in
place gives the changed list as a result here.

Headlines: `Value.push_eq_ok_iff` and `Value.pop_eq_ok_iff`, appending and removing are the list
operations on the cells; `Value.push_eq_error_iff` and `Value.pop_eq_error_iff`, what is refused.
-/

namespace Abacus

/-- Why an access to cells is refused. -/
inductive CellError where
  /-- The value is no list. -/
  | notAList (kind : Value.Kind)
  /-- The list has no cell at the index. -/
  | indexOutOfRange (index count : Nat)
  deriving DecidableEq, Repr

/-- The text of a refused access. -/
def CellError.message : CellError → String
  | notAList kind => kind.name ++ " value has no cells"
  | indexOutOfRange index count =>
    "cell index " ++ index.repr ++ " out of range for " ++ count.repr ++ " cells"

namespace Value

/-- The cells of a list, in order. -/
def cells (v : Value) : Except CellError (List Value) :=
  match v.cells? with
  | some cells => .ok cells
  | none => .error (.notAList v.kind)

/-- A value with its cells replaced; a value without cells stays as it is. -/
def withCells : Value → List Value → Value
  | sexpr _, cells => sexpr cells
  | qexpr _, cells => qexpr cells
  | v, _ => v

/-- Append `cell` after the other cells. -/
def push (v cell : Value) : Except CellError Value :=
  match v.cells with
  | .ok cells => .ok (v.withCells (cells ++ [cell]))
  | .error e => .error e

/-- Remove the cell at `index`: the cell, and the list without it. -/
def pop (v : Value) (index : Nat) : Except CellError (Value × Value) :=
  match v.cells with
  | .ok cells =>
    match cells[index]? with
    | some cell => .ok (cell, v.withCells (cells.eraseIdx index))
    | none => .error (.indexOutOfRange index cells.length)
  | .error e => .error e

/-- The cell at `index`, without the list around it. -/
def take (v : Value) (index : Nat) : Except CellError Value :=
  match v.pop index with
  | .ok (cell, _) => .ok cell
  | .error e => .error e

/-! ## Laws -/

@[simp] theorem kind_withCells (v : Value) (cells : List Value) :
    (v.withCells cells).kind = v.kind := by
  cases v <;> rfl

theorem cells?_withCells {v : Value} {old : List Value} (h : v.cells? = some old)
    (cells : List Value) : (v.withCells cells).cells? = some cells := by
  cases v with
  | sexpr _ | qexpr _ => rfl
  | number _ | error _ | symbol _ => cases h

theorem cells_eq_ok_iff {v : Value} {cells : List Value} :
    v.cells = .ok cells ↔ v.cells? = some cells := by
  unfold Value.cells
  split <;> simp [*]

theorem cells_eq_error_iff {v : Value} {e : CellError} :
    v.cells = .error e ↔ v.cells? = none ∧ e = .notAList v.kind := by
  unfold Value.cells
  split
  · simp [*]
  · next h => simp [h, eq_comm]

theorem push_eq_ok_iff {v cell w : Value} :
    v.push cell = .ok w ↔ ∃ cells, v.cells? = some cells ∧ w = v.withCells (cells ++ [cell]) := by
  unfold push Value.cells
  cases v.cells? <;> simp [eq_comm]

theorem push_eq_error_iff {v cell : Value} {e : CellError} :
    v.push cell = .error e ↔ v.cells? = none ∧ e = .notAList v.kind := by
  unfold push Value.cells
  cases v.cells? <;> simp [eq_comm]

theorem pop_eq_ok_iff {v cell rest : Value} {index : Nat} :
    v.pop index = .ok (cell, rest) ↔
      ∃ cells, v.cells? = some cells ∧ cells[index]? = some cell ∧
        rest = v.withCells (cells.eraseIdx index) := by
  unfold pop Value.cells
  cases v.cells? with
  | none => simp
  | some cells => cases h : cells[index]? <;> simp [h, eq_comm]

theorem pop_eq_error_iff {v : Value} {index : Nat} {e : CellError} :
    v.pop index = .error e ↔
      (v.cells? = none ∧ e = .notAList v.kind) ∨
      ∃ cells, v.cells? = some cells ∧ cells.length ≤ index ∧
        e = .indexOutOfRange index cells.length := by
  unfold pop Value.cells
  cases v.cells? with
  | none => simp [eq_comm]
  | some cells =>
    cases h : cells[index]? with
    | none => simp [eq_comm, List.getElem?_eq_none_iff.1 h]
    | some cell =>
      obtain ⟨hlt, -⟩ := List.getElem?_eq_some_iff.1 h
      simp [h, Nat.not_le.2 hlt]

theorem take_eq_ok_iff {v cell : Value} {index : Nat} :
    v.take index = .ok cell ↔ ∃ rest, v.pop index = .ok (cell, rest) := by
  unfold take
  split <;> simp_all

end Value

end Abacus
