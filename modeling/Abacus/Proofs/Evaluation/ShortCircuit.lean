import Abacus.Proofs.Evaluation.Reduction

/-!
# Evaluation that stops at the first error

The cells of an S-expression are evaluated from left to right, and the first one that gives an error
ends the evaluation of the whole list: no cell after it is looked at. `Abacus.evaluate` evaluates all
cells before it looks for an error.

Headline: `ShortCircuit.evaluate_eq`, both evaluators give the same for every value.
-/

namespace Abacus.ShortCircuit

/-! ## The evaluator -/

mutual

/-- Evaluate a value, up to the first error. -/
def evaluate : Value → Value
  | .sexpr cells =>
    match evaluateCells cells with
    | .ok results => dispatch results
    | .error message => .error message
  | v => v
termination_by structural v => v

/-- Evaluate cells one after another, up to the first that gives an error. -/
def evaluateCells : List Value → Except String (List Value)
  | [] => .ok []
  | c :: cs =>
    match evaluate c with
    | .error message => .error message
    | result =>
      match evaluateCells cs with
      | .ok results => .ok (result :: results)
      | .error message => .error message
termination_by structural cells => cells

end

/-! ## Agreement -/

theorem evaluateCells_of_error {c : Value} {message : String} (h : evaluate c = .error message)
    (cs : List Value) : evaluateCells (c :: cs) = .error message := by
  rw [evaluateCells, h]

theorem evaluateCells_of_not_error {c : Value} (h : (evaluate c).isError = false)
    (cs : List Value) : evaluateCells (c :: cs) = (evaluateCells cs).map (evaluate c :: ·) := by
  rw [evaluateCells]
  split
  · next he =>
    rw [he] at h
    cases h
  · cases evaluateCells cs <;> rfl

section

variable {cells : List Value} (hcells : ∀ c ∈ cells, evaluate c = Abacus.evaluate c)

include hcells

/-- Without an error all cells are evaluated. -/
theorem evaluateCells_eq_ok (h : (cells.map Abacus.evaluate).find? Value.isError = none) :
    evaluateCells cells = .ok (cells.map Abacus.evaluate) := by
  induction cells with
  | nil => rw [evaluateCells, List.map_nil]
  | cons c cs ih =>
    obtain ⟨hc, hcs⟩ := List.forall_mem_cons.1 hcells
    rw [List.map_cons, List.find?_cons] at h
    split at h
    · cases h
    · next hn =>
      rw [evaluateCells_of_not_error (by rw [hc]; exact hn), ih hcs h, hc]
      rfl

/-- The first error among the results of all cells is where the evaluation stops. -/
theorem evaluateCells_eq_error {message : String}
    (h : (cells.map Abacus.evaluate).find? Value.isError = some (.error message)) :
    evaluateCells cells = .error message := by
  induction cells with
  | nil => cases h
  | cons c cs ih =>
    obtain ⟨hc, hcs⟩ := List.forall_mem_cons.1 hcells
    rw [List.map_cons, List.find?_cons] at h
    split at h
    · exact evaluateCells_of_error (hc.trans (Option.some.inj h)) cs
    · next hn =>
      rw [evaluateCells_of_not_error (by rw [hc]; exact hn), ih hcs h]
      rfl

end

/-- **Stopping at the first error changes no result.** -/
theorem evaluate_eq (v : Value) : evaluate v = Abacus.evaluate v := by
  induction v with
  | number n => exact (evaluate_number _).symm
  | error message => exact (evaluate_error _).symm
  | symbol name => exact (evaluate_symbol _).symm
  | qexpr cells _ => exact (evaluate_qexpr _).symm
  | sexpr cells ih =>
    rw [evaluate, evaluate_sexpr]
    cases hf : (cells.map Abacus.evaluate).find? Value.isError with
    | none => rw [evaluateCells_eq_ok ih hf, reduceCells_eq_dispatch hf]
    | some error =>
      obtain ⟨message, rfl⟩ := Value.isError_iff.1 (List.find?_some hf)
      rw [evaluateCells_eq_error ih hf, reduceCells_of_find? hf]

/-- Of two failing cells the left one is reported, and a quoted error does not matter. -/
example :
    evaluate (.sexpr [.qexpr [.error "quoted"], .sexpr [.number 1, .number 2], .error "late"]) =
      EvalError.badHead.toValue := by
  rfl

end Abacus.ShortCircuit
