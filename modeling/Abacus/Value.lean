import Abacus.Bracket
import Abacus.Number
import Abacus.Traversal

/-!
# Values

What the calculator computes with. A value is a number, an error, a symbol, or a list of cells;
an S-expression is a list to be evaluated and a Q-expression one that is left alone.

Model of `Value` and `ValueKind` with `kind`, `is_error` (`isError`), `as_number` (`number?`),
`as_symbol` (`symbol?`), `cells` (`cells?`), `cell_count` (`cellCount`) and equality.

Out of scope: hashes.

Headline: equality of values is decidable, by `Value.allEqual_iff`, in a loop over pairs of cells
that needs no stack.
-/

namespace Abacus

/-- A value. -/
inductive Value where
  /-- A signed 64-bit integer. -/
  | number (value : Number)
  /-- A failed evaluation. -/
  | error (message : String)
  /-- A name, kept as it was written. -/
  | symbol (name : String)
  /-- A list to be evaluated. -/
  | sexpr (cells : List Value)
  /-- A quoted list. -/
  | qexpr (cells : List Value)
  deriving Inhabited

namespace Value

/-- The five kinds of values. -/
inductive Kind where
  | number
  | error
  | symbol
  | sexpr
  | qexpr
  deriving DecidableEq, Repr

/-- What a kind of value is called. -/
def Kind.name : Kind → String
  | number => "number"
  | error => "error"
  | symbol => "symbol"
  | sexpr => "s-expression"
  | qexpr => "q-expression"

/-! ## Inspection -/

/-- The kind of a value. -/
def kind : Value → Kind
  | number _ => .number
  | error _ => .error
  | symbol _ => .symbol
  | sexpr _ => .sexpr
  | qexpr _ => .qexpr

/-- Whether a value is an error. -/
def isError : Value → Bool
  | error _ => true
  | _ => false

/-- The number that a value is. -/
def number? : Value → Option Number
  | number n => some n
  | _ => none

/-- The name of a value that is a symbol. -/
def symbol? : Value → Option String
  | symbol name => some name
  | _ => none

/-- The cells of a list, of either kind. -/
def cells? : Value → Option (List Value)
  | sexpr cells | qexpr cells => some cells
  | _ => none

/-- How many cells a value has; only lists have any. -/
def cellCount (v : Value) : Nat := (v.cells?.getD []).length

/-- The list with the given cells whose brackets are `b`. -/
def ofBracket (b : Bracket) (cells : List Value) : Value :=
  match b with
  | .round => sexpr cells
  | .curly => qexpr cells

@[simp] theorem cells?_ofBracket (b : Bracket) (cells : List Value) :
    (ofBracket b cells).cells? = some cells := by
  cases b <;> rfl

theorem isError_iff {v : Value} : v.isError = true ↔ ∃ message, v = error message := by
  cases v <;> simp [isError]

theorem number?_eq_some_iff {v : Value} {n : Number} : v.number? = some n ↔ v = number n := by
  cases v <;> simp [number?]

theorem symbol?_eq_some_iff {v : Value} {name : String} :
    v.symbol? = some name ↔ v = symbol name := by
  cases v <;> simp [symbol?]

/-! ## Nesting -/

/-- How values are taken apart into their cells. -/
def nesting : Branching Value where
  parts v := v.cells?.getD []
  bounded := by
    refine ⟨sizeOf, fun v c h => ?_⟩
    cases v with
    | sexpr cells | qexpr cells =>
      have : sizeOf c < sizeOf cells := List.sizeOf_lt_of_mem h
      simp only [sexpr.sizeOf_spec, qexpr.sizeOf_spec]
      omega
    | number _ | error _ | symbol _ => cases h

/-! ## Induction -/

/-- Induction on values, where the cells of a list are known to satisfy the claim. -/
@[elab_as_elim, induction_eliminator]
theorem induct {motive : Value → Prop} (number : ∀ n, motive (number n))
    (error : ∀ message, motive (error message)) (symbol : ∀ name, motive (symbol name))
    (sexpr : ∀ cells, (∀ c ∈ cells, motive c) → motive (sexpr cells))
    (qexpr : ∀ cells, (∀ c ∈ cells, motive c) → motive (qexpr cells)) (v : Value) : motive v :=
  match v with
  | .number n => number n
  | .error message => error message
  | .symbol name => symbol name
  | .sexpr cells => sexpr cells fun c _ => induct number error symbol sexpr qexpr c
  | .qexpr cells => qexpr cells fun c _ => induct number error symbol sexpr qexpr c

/-! ## Equality -/

/-- Whether the two values of every pair are equal. -/
def allEqual : List (Value × Value) → Bool
  | [] => true
  | (number m, number n) :: pairs => if m = n then allEqual pairs else false
  | (error m, error n) :: pairs => if m = n then allEqual pairs else false
  | (symbol m, symbol n) :: pairs => if m = n then allEqual pairs else false
  | (sexpr xs, sexpr ys) :: pairs =>
    if xs.length = ys.length then allEqual (xs.zip ys ++ pairs) else false
  | (qexpr xs, qexpr ys) :: pairs =>
    if xs.length = ys.length then allEqual (xs.zip ys ++ pairs) else false
  | _ => false
termination_by pairs => ((pairs.map Prod.fst).flatMap nesting.nodes).length
decreasing_by
  all_goals simp only [List.map_append, List.map_cons, List.flatMap_append, List.flatMap_cons,
    List.length_append, nesting.nodes_eq, List.length_cons]
  · omega
  · omega
  · omega
  all_goals
    rw [List.map_fst_zip (by omega)]
    simp only [nesting, cells?, Option.getD_some]
    omega

private theorem zip_all_eq_iff {xs ys : List Value} (h : xs.length = ys.length) :
    (∀ p ∈ xs.zip ys, p.1 = p.2) ↔ xs = ys := by
  induction xs generalizing ys with
  | nil =>
    cases ys with
    | nil => simp
    | cons y ys => simp at h
  | cons x xs ih =>
    cases ys with
    | nil => simp at h
    | cons y ys =>
      have := @ih ys (by simpa using h)
      simp only [List.zip_cons_cons, List.mem_cons, forall_eq_or_imp, List.cons.injEq, this]

/-- **The comparison is exact.** -/
theorem allEqual_iff (pairs : List (Value × Value)) :
    allEqual pairs = true ↔ ∀ p ∈ pairs, p.1 = p.2 := by
  fun_induction allEqual pairs with
  | case1 => simp
  | case2 n pairs ih | case4 n pairs ih | case6 n pairs ih => simp [ih]
  | case3 m n pairs h | case5 m n pairs h | case7 m n pairs h => simp [h]
  | case8 xs ys pairs h ih | case10 xs ys pairs h ih =>
    rw [ih, List.forall_mem_append, zip_all_eq_iff h]
    simp
  | case9 xs ys pairs h | case11 xs ys pairs h =>
    have : xs ≠ ys := fun e => h (congrArg List.length e)
    simp [this]
  | case12 pairs hnil hnumber herror hsymbol hsexpr hqexpr =>
    obtain _ | ⟨⟨v, w⟩, pairs⟩ := pairs
    · exact absurd rfl hnil
    · have hne : v ≠ w := by
        rintro rfl
        cases v with
        | number n => exact hnumber n n pairs rfl
        | error n => exact herror n n pairs rfl
        | symbol n => exact hsymbol n n pairs rfl
        | sexpr xs => exact hsexpr xs xs pairs rfl
        | qexpr xs => exact hqexpr xs xs pairs rfl
      simp [hne]

instance : DecidableEq Value := fun v w =>
  decidable_of_iff (allEqual [(v, w)] = true) (by simp [allEqual_iff])

end Value

end Abacus
