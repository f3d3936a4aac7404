import Abacus.Proofs.Evaluation.NormalForm

/-!
# Nested applications

An operator combines its operands from left to right, so the first ones may be combined in an
application of their own. That application either gives the number that the longer fold has at the
same place, or it is the error that the fold stops at, and then it poisons the S-expression around
it. Two operands inside are enough; a single one would be negated by the minus sign.

Headlines:
* `evaluate_application`: an operator applied to cells that evaluate to numbers reduces the numbers.
* `evaluate_poisoned`: an error that the first operand gives is the result.
* `evaluate_left_nested`: the first two or more operands may be combined inside.
-/

namespace Abacus

/-! ## Applications -/

/-- Evaluated cells with an operator in front of numbers are the reduction of the numbers. -/
theorem reduceCells_application (op : Operator) (first : Number) (rest : List Number) :
    reduceCells (.symbol op.symbol :: (first :: rest).map .number) =
      settle (reduce op first rest) := by
  have hnone : (.symbol op.symbol :: (first :: rest).map Value.number).find? Value.isError =
      none := List.find?_eq_none.2 (by simp [Value.isError])
  rw [reduceCells_eq_dispatch hnone]
  change call (.symbol op.symbol) ((first :: rest).map .number) = _
  simp only [call, Value.symbol?, Operator.ofSymbol?_symbol]
  exact applyOperator_of_numbers rfl

/-- **An operator applied to cells that evaluate to numbers** reduces the numbers. -/
theorem evaluate_application (op : Operator) {cells : List Value} {first : Number}
    {rest : List Number} (h : cells.map evaluate = (first :: rest).map .number) :
    evaluate (.sexpr (.symbol op.symbol :: cells)) = settle (reduce op first rest) := by
  rw [evaluate_sexpr, List.map_cons, evaluate_symbol, h, reduceCells_application]

/-- An error that the first operand gives is the result, whatever the others are. -/
theorem evaluate_poisoned (op : Operator) {c : Value} {e : EvalError}
    (h : evaluate c = e.toValue) (cs : List Value) :
    evaluate (.sexpr (.symbol op.symbol :: c :: cs)) = e.toValue := by
  rw [evaluate_sexpr, List.map_cons, List.map_cons, evaluate_symbol, h]
  exact reduceCells_of_find? rfl

/-! ## Combining the first operands inside -/

/-- The numbers that cells evaluate to. -/
theorem exists_map_evaluate_eq {cells : List Value} (h : ∀ c ∈ cells, ∃ n, evaluate c = .number n) :
    ∃ ns : List Number, cells.map evaluate = ns.map .number := by
  induction cells with
  | nil => exact ⟨[], rfl⟩
  | cons c cs ih =>
    obtain ⟨⟨n, hn⟩, hcs⟩ := List.forall_mem_cons.1 h
    obtain ⟨ns, hns⟩ := ih hcs
    exact ⟨n :: ns, by rw [List.map_cons, List.map_cons, hn, hns]⟩

/-- A fold that is cut after two or more operands, in terms of the numbers. -/
theorem evaluate_nested_of_numbers (op : Operator) {front back : List Value} {first : Number}
    {ms ns : List Number} (hfront : front.map evaluate = (first :: ms).map .number)
    (hback : back.map evaluate = ns.map .number) (hms : ms ≠ []) (hns : ns ≠ []) :
    evaluate (.sexpr (.symbol op.symbol :: (front ++ back))) =
      evaluate (.sexpr (.symbol op.symbol :: .sexpr (.symbol op.symbol :: front) :: back)) := by
  have hall : (front ++ back).map evaluate = (first :: (ms ++ ns)).map .number := by
    rw [List.map_append, hfront, hback, ← List.map_append, List.cons_append]
  have hinner := evaluate_application op hfront
  rw [reduce_eq_foldSteps fun hnil => hms hnil.2] at hinner
  rw [evaluate_application op hall, reduce_eq_foldSteps (by simp [hms]), foldSteps_append]
  cases hfold : foldSteps op first ms with
  | ok c =>
    -- the fold goes on with what the inner application gives
    rw [hfold] at hinner
    have houter : (.sexpr (.symbol op.symbol :: front) :: back).map evaluate =
        (c :: ns).map .number := by
      rw [List.map_cons, List.map_cons, hinner, hback]
      rfl
    rw [evaluate_application op houter, reduce_eq_foldSteps fun hnil => hns hnil.2]
  | error e =>
    rw [hfold] at hinner
    exact (evaluate_poisoned op hinner back).symm

/-- **Left nesting.** If all operands evaluate to numbers, the first two or more of them, but not
all, may be combined in an application of the same operator. The result is the same, also where it
is an error. -/
theorem evaluate_left_nested (op : Operator) {cells : List Value} {k : Nat} (hk : 2 ≤ k)
    (hlt : k < cells.length) (h : ∀ c ∈ cells, ∃ n, evaluate c = .number n) :
    evaluate (.sexpr (.symbol op.symbol :: cells)) =
      evaluate (.sexpr (.symbol op.symbol ::
        .sexpr (.symbol op.symbol :: cells.take k) :: cells.drop k)) := by
  obtain ⟨ns, hns⟩ := exists_map_evaluate_eq h
  have hlength : cells.length = ns.length := by simpa using congrArg List.length hns
  have hfront : (cells.take k).map evaluate = (ns.take k).map .number := by
    rw [List.map_take, hns, ← List.map_take]
  have hback : (cells.drop k).map evaluate = (ns.drop k).map .number := by
    rw [List.map_drop, hns, ← List.map_drop]
  have htake : (ns.take k).length = k := List.length_take_of_le (by omega)
  have hdrop : 0 < (ns.drop k).length := by
    rw [List.length_drop]
    omega
  obtain ⟨first, ms, hcons⟩ := List.exists_cons_of_length_pos (l := ns.take k) (by omega)
  rw [hcons] at hfront htake
  have hms : 0 < ms.length := by
    rw [List.length_cons] at htake
    omega
  have hnested := evaluate_nested_of_numbers op hfront hback (List.ne_nil_of_length_pos hms)
    (List.ne_nil_of_length_pos hdrop)
  rwa [List.take_append_drop] at hnested

/-- The quotient of the first two operands is out of range, so the zero after them is not noticed,
and the error from inside is the same as that of the longer fold. -/
theorem evaluate_left_nested_overflow :
    (∀ c ∈ [Value.sexpr [.number Int64.minValue], .number (-1), .number 0],
        ∃ n, evaluate c = .number n) ∧
      evaluate (.sexpr [.symbol "/", .sexpr [.number Int64.minValue], .number (-1), .number 0]) =
        evaluate (.sexpr [.symbol "/",
          .sexpr [.symbol "/", .sexpr [.number Int64.minValue], .number (-1)], .number 0]) := by
  have hnumbers : ∀ c ∈ [Value.sexpr [.number Int64.minValue], .number (-1), .number 0],
      ∃ n, evaluate c = .number n := by simp
  exact ⟨hnumbers, evaluate_left_nested .div (k := 2) (by decide) (by decide) hnumbers⟩

end Abacus
