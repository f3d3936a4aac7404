import Abacus.Proofs.Evaluation.Reduction

/-!
# What evaluation ends in

An evaluated value is a number, an error, a symbol, a quoted list or the empty S-expression, and
evaluating it again changes nothing. Arithmetic only gives numbers and errors. So a symbol, a quoted
list or the empty S-expression is a result only where it was written down, with nothing around it but
brackets that hold a single cell; `Value.strip` takes these away.

Headlines:
* `isNormal_evaluate`, `evaluate_eq_self_iff`: results are the values that evaluation leaves alone.
* `isOutcome_evaluate`: an S-expression of two or more cells gives a number or an error.
* `evaluate_wrap`, `evaluate_strip`: brackets around a single cell do not matter.
* `evaluate_normalForm`: all of this together, and where inert results come from.
-/

namespace Abacus

/-! ## Normal values -/

/-- A value that is no S-expression with cells. -/
def Value.IsNormal (v : Value) : Prop := ∀ c cs, v ≠ .sexpr (c :: cs)

theorem Value.IsOutcome.isNormal {v : Value} (h : v.IsOutcome) : v.IsNormal := by
  rcases h with ⟨n, rfl⟩ | ⟨message, rfl⟩ <;> intro c cs he <;> cases he

theorem reduceCells_singleton (cell : Value) : reduceCells [cell] = cell := by
  cases h : cell.isError with
  | true => exact reduceCells_of_find? (List.find?_cons_of_pos h)
  | false => exact reduceCells_eq_dispatch (by simp [h])

/-- Two or more cells are reduced to a number or an error. -/
theorem isOutcome_reduceCells (first second : Value) (rest : List Value) :
    (reduceCells (first :: second :: rest)).IsOutcome := by
  cases hf : (first :: second :: rest).find? Value.isError with
  | some error =>
    rw [reduceCells_of_find? hf]
    exact .inr (Value.isError_iff.1 (List.find?_some hf))
  | none =>
    rw [reduceCells_eq_dispatch hf]
    exact isOutcome_call first (second :: rest)

@[simp] theorem evaluate_nil : evaluate (.sexpr []) = .sexpr [] := by
  rw [evaluate_sexpr]
  rfl

/-- A single cell stands for itself. -/
@[simp] theorem evaluate_singleton (c : Value) : evaluate (.sexpr [c]) = evaluate c := by
  rw [evaluate_sexpr, List.map_singleton, reduceCells_singleton]

/-- **An S-expression of two or more cells gives a number or an error.** -/
theorem isOutcome_evaluate (c d : Value) (cs : List Value) :
    (evaluate (.sexpr (c :: d :: cs))).IsOutcome := by
  rw [evaluate_sexpr]
  exact isOutcome_reduceCells _ _ _

/-- **A result is no S-expression with cells.** -/
theorem isNormal_evaluate (v : Value) : (evaluate v).IsNormal := by
  induction v with
  | number _ | error _ | symbol _ => simp [Value.IsNormal]
  | qexpr cells _ => simp [Value.IsNormal]
  | sexpr cells ih =>
    match cells with
    | [] => simp [Value.IsNormal]
    | [c] =>
      rw [evaluate_singleton]
      exact ih c List.mem_cons_self
    | c :: d :: cs => exact (isOutcome_evaluate c d cs).isNormal

theorem Value.IsNormal.evaluate_eq {v : Value} (h : v.IsNormal) : evaluate v = v := by
  cases v with
  | number n => exact evaluate_number n
  | error message => exact evaluate_error message
  | symbol name => exact evaluate_symbol name
  | qexpr cells => exact evaluate_qexpr cells
  | sexpr cells =>
    cases cells with
    | nil => exact evaluate_nil
    | cons c cs => exact absurd rfl (h c cs)

/-- **The normal values are those that evaluation leaves alone.** -/
theorem evaluate_eq_self_iff {v : Value} : evaluate v = v ↔ v.IsNormal :=
  ⟨fun h => h ▸ isNormal_evaluate v, Value.IsNormal.evaluate_eq⟩

/-! ## Redundant brackets -/

namespace Value

/-- A value with `n` pairs of redundant brackets around it. -/
def wrap (v : Value) : Nat → Value
  | 0 => v
  | n + 1 => .sexpr [v.wrap n]

/-- A value without the redundant brackets around it. -/
def strip : Value → Value
  | .sexpr [c] => c.strip
  | v => v

/-- **Stripping takes away redundant brackets** and nothing else. -/
theorem exists_wrap_strip (v : Value) : ∃ n, v = v.strip.wrap n := by
  fun_induction strip v with
  | case1 c ih =>
    obtain ⟨n, hn⟩ := ih
    exact ⟨n + 1, congrArg (fun c => sexpr [c]) hn⟩
  | case2 v _ => exact ⟨0, rfl⟩

/-- No redundant brackets are left. -/
theorem strip_ne_singleton (v c : Value) : v.strip ≠ .sexpr [c] := by
  fun_induction strip v with
  | case1 d ih => exact ih
  | case2 v h => exact h c

end Value

/-- **Redundant brackets do not matter.** -/
theorem evaluate_wrap (v : Value) (n : Nat) : evaluate (v.wrap n) = evaluate v := by
  induction n with
  | zero => rfl
  | succ n ih => rw [Value.wrap, evaluate_singleton, ih]

theorem evaluate_strip (v : Value) : evaluate v.strip = evaluate v := by
  obtain ⟨n, hn⟩ := v.exists_wrap_strip
  have h := evaluate_wrap v.strip n
  rw [← hn] at h
  exact h.symm

/-! ## Inert results -/

/-- A value that arithmetic never gives: a symbol, a quoted list or the empty S-expression. -/
def Value.IsInert (v : Value) : Prop :=
  (∃ name, v = .symbol name) ∨ (∃ cells, v = .qexpr cells) ∨ v = .sexpr []

theorem Value.IsInert.isNormal {v : Value} (h : v.IsInert) : v.IsNormal := by
  rcases h with ⟨name, rfl⟩ | ⟨cells, rfl⟩ | rfl <;> intro c cs he <;> cases he

theorem Value.IsOutcome.not_isInert {v : Value} (h : v.IsOutcome) : ¬v.IsInert := by
  rcases h with ⟨n, rfl⟩ | ⟨message, rfl⟩ <;> simp [Value.IsInert]

/-- What is inert without its redundant brackets is the result. -/
theorem evaluate_of_isInert_strip {v : Value} (h : v.strip.IsInert) : evaluate v = v.strip := by
  rw [← evaluate_strip, h.isNormal.evaluate_eq]

/-- Everything else gives a number or an error. -/
theorem isOutcome_of_not_isInert_strip {v : Value} (h : ¬v.strip.IsInert) :
    (evaluate v).IsOutcome := by
  have hs := v.strip_ne_singleton
  rw [← evaluate_strip]
  match hv : v.strip with
  | .number n => exact .inl ⟨n, evaluate_number n⟩
  | .error message => exact .inr ⟨message, evaluate_error message⟩
  | .symbol name => exact absurd (.inl ⟨name, hv⟩) h
  | .qexpr cells => exact absurd (.inr (.inl ⟨cells, hv⟩)) h
  | .sexpr [] => exact absurd (.inr (.inr hv)) h
  | .sexpr [c] => exact absurd hv (hs c)
  | .sexpr (c :: d :: cs) => exact isOutcome_evaluate c d cs

theorem isInert_evaluate_iff {v : Value} : (evaluate v).IsInert ↔ v.strip.IsInert := by
  constructor
  · intro h
    by_cases hs : v.strip.IsInert
    · exact hs
    · exact absurd h (isOutcome_of_not_isInert_strip hs).not_isInert
  · intro h
    rw [evaluate_of_isInert_strip h]
    exact h

/-- **Results are normal forms.** Evaluation never ends in an S-expression with cells, and evaluating
a result changes nothing. The result is a symbol, a quoted list or the empty S-expression exactly if
the value is one under its redundant brackets, and then it is that value as it was written. An
S-expression of two or more cells gives a number or an error. -/
theorem evaluate_normalForm (v : Value) :
    (∀ c cs, evaluate v ≠ .sexpr (c :: cs)) ∧
    evaluate (evaluate v) = evaluate v ∧
    ((evaluate v).IsInert ↔ v.strip.IsInert) ∧
    ((evaluate v).IsInert → evaluate v = v.strip) ∧
    ∀ c d cs, v = .sexpr (c :: d :: cs) →
      (∃ n, evaluate v = .number n) ∨ ∃ message, evaluate v = .error message := by
  refine ⟨isNormal_evaluate v, (isNormal_evaluate v).evaluate_eq, isInert_evaluate_iff, fun h => ?_,
    ?_⟩
  · exact evaluate_of_isInert_strip (isInert_evaluate_iff.1 h)
  · rintro c d cs rfl
    exact isOutcome_evaluate c d cs

/-- A quoted list keeps its cells, whatever they are, and loses the brackets around it. -/
example :
    (Value.sexpr [.sexpr [.qexpr [.sexpr [.number 1], .error "kept"]]]).strip =
      .qexpr [.sexpr [.number 1], .error "kept"] := by
  rfl

end Abacus
