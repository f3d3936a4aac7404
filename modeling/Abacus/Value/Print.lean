import Abacus.Value
import Abacus.Traversal

/-!
# Printing values

How a value is written: a number in decimal notation, an error behind a mark, a symbol as it is,
and a list as its cells between brackets with one space between any two.

Model of the display of values, with `write_cells` (`enclosed`).

Headlines: `Value.print_sexpr` and `Value.print_qexpr`, a list is printed as its printed cells.
-/

namespace Abacus.Value

/-! ## Lists in a layout -/

/-- A layout of values as text. -/
abbrev Pieces := List (String ⊕ Value)

/-- The given cells with `separator` between any two. -/
def separated (separator : String) : List Value → Pieces
  | [] => []
  | c :: cs => .inr c :: cs.flatMap fun c => [.inl separator, .inr c]

/-- The given cells between `opening` and `closing`, with `separator` between any two. -/
def enclosed (opening separator closing : String) (cells : List Value) : Pieces :=
  .inl opening :: separated separator cells ++ [.inl closing]

theorem mem_of_mem_enclosed {opening separator closing : String} {cells : List Value} {c : Value}
    (h : .inr c ∈ enclosed opening separator closing cells) : c ∈ cells := by
  cases cells with
  | nil => simp [enclosed, separated] at h
  | cons d cells => simpa [enclosed, separated] using h

/-- **A laid-out list is the texts of its cells**, separated and enclosed. -/
theorem join_enclosed (L : Layout Value String) (opening separator closing : String)
    (cells : List Value) :
    String.join ((enclosed opening separator closing cells).flatMap
        (Sum.elim (fun t => [t]) L.list)) =
      opening ++ separator.intercalate (cells.map fun c => String.join (L.list c)) ++ closing := by
  have h : ∀ cs : List Value,
      String.join ((separated separator cs).flatMap (Sum.elim (fun t => [t]) L.list)) =
        separator.intercalate (cs.map fun c => String.join (L.list c)) := by
    intro cs
    induction cs with
    | nil => rfl
    | cons c cs ih =>
      cases cs with
      | nil => simp [separated]
      | cons d cs =>
        simp only [separated, List.flatMap_cons, Sum.elim_inr, String.join_append, List.map_cons,
          String.intercalate_cons_cons] at ih ⊢
        rw [← ih]
        simp [String.append_assoc]
  simp [enclosed, List.flatMap_append, h, String.append_assoc]

/-! ## Printing -/

/-- The mark in front of the message of an error. -/
def errorMark : String := "Error: "

/-- The pieces that a value is printed as. -/
def printPieces : Value → Pieces
  | number n => [.inl n.toText]
  | error message => [.inl errorMark, .inl message]
  | symbol name => [.inl name]
  | sexpr cells => enclosed "(" " " ")" cells
  | qexpr cells => enclosed "\x7b" " " "\x7d" cells

theorem mem_cells_of_mem_printPieces {v c : Value} (h : .inr c ∈ printPieces v) :
    c ∈ nesting.parts v := by
  cases v with
  | sexpr cells | qexpr cells => exact mem_of_mem_enclosed h
  | number _ | error _ | symbol _ => simp [printPieces] at h

/-- The layout of printed values. -/
def printLayout : Layout Value String where
  pieces := printPieces
  bounded := ⟨nesting.size, fun _ _ h => nesting.size_lt_of_mem (mem_cells_of_mem_printPieces h)⟩

/-- The text of a value. -/
def print (v : Value) : String := String.join (printLayout.list v)

@[simp] theorem print_number (n : Number) : print (number n) = n.toText := by
  rw [print, Layout.list_eq]
  simp [printLayout, printPieces]

@[simp] theorem print_error (message : String) :
    print (error message) = errorMark ++ message := by
  rw [print, Layout.list_eq]
  simp [printLayout, printPieces]

@[simp] theorem print_symbol (name : String) : print (symbol name) = name := by
  rw [print, Layout.list_eq]
  simp [printLayout, printPieces]

/-- **An S-expression is printed as its cells between round brackets.** -/
theorem print_sexpr (cells : List Value) :
    print (sexpr cells) = "(" ++ " ".intercalate (cells.map print) ++ ")" := by
  rw [print, Layout.list_eq]
  exact join_enclosed printLayout "(" " " ")" cells

/-- **A Q-expression is printed as its cells between curly brackets.** -/
theorem print_qexpr (cells : List Value) :
    print (qexpr cells) = "\x7b" ++ " ".intercalate (cells.map print) ++ "\x7d" := by
  rw [print, Layout.list_eq]
  exact join_enclosed printLayout "\x7b" " " "\x7d" cells

end Abacus.Value
