import Abacus.Proofs.Evaluation.Reduction
import Abacus.Proofs.Exact

/-!
# Checked evaluation refines exact evaluation

An exact evaluation either keeps every one of its steps in the 64-bit range, and then checked
evaluation has the same result, or it leaves the range somewhere, and then checked evaluation ends
in an error: the overflow poisons every S-expression around it. `Simulates` says this of a single
computation. It is proved once for each definition, from the fold step up to whole values.

Headlines:
* `step_eq_check`, `negate_eq_check`: a checked step is the exact step with its result checked.
* `simulates_foldSteps`, `simulates_reduceCells`, `simulates_evaluate`: the simulation, level by
  level.
* `evaluate_refines_exact`: the two evaluators over all values.
-/

namespace Abacus

open Number (InRange)

/-! ## The range check -/

namespace Number

theorem inRange_toInt (a : Number) : InRange a.toInt := ⟨a.minValue_le_toInt, a.toInt_le⟩

theorem exists_ofInt?_of_inRange {n : Int} (h : InRange n) :
    ∃ a, ofInt? n = some a ∧ a.toInt = n := by
  have ha : ofInt? n = some (Int64.ofInt n) := if_pos h
  exact ⟨_, ha, ofInt?_eq_some_iff.1 ha⟩

theorem ofInt?_eq_none_of_not_inRange {n : Int} (h : ¬InRange n) : ofInt? n = none := if_neg h

end Number

/-- An exact result with the range check of the given operation. -/
def check (operation : Operation) : Except EvalError Int → Except EvalError Number
  | .ok n =>
    match Number.ofInt? n with
    | some a => .ok a
    | none => .error (.integerOverflow operation)
  | .error e => .error e

theorem check_of_inRange (operation : Operation) {n : Int} (h : InRange n) :
    ∃ a, check operation (.ok n) = .ok a ∧ a.toInt = n := by
  obtain ⟨a, ha, hv⟩ := Number.exists_ofInt?_of_inRange h
  exact ⟨a, by simp only [check, ha], hv⟩

theorem check_of_not_inRange (operation : Operation) {n : Int} (h : ¬InRange n) :
    check operation (.ok n) = .error (.integerOverflow operation) := by
  simp only [check, Number.ofInt?_eq_none_of_not_inRange h]

/-- **A checked step is the exact step with its result checked.** -/
theorem step_eq_check (op : Operator) (a b : Number) :
    step op a b = check (.binary op) (Exact.step op a.toInt b.toInt) := by
  cases op with
  | add | sub | mul => rfl
  | div =>
    by_cases hb : b = 0
    · simp [step, Exact.step, check, hb]
    · have hb' : b.toInt ≠ 0 := fun h => hb (Int64.toInt_inj.1 h)
      simp only [step, Exact.step, hb, hb', and_false, if_false, Operator.checked, Number.div?]
      rfl

/-- **Negation is exact negation with its result checked.** -/
theorem negate_eq_check (a : Number) : negate a = check .negation (.ok (-a.toInt)) := rfl

/-! ## Simulation -/

/-- `r` is what checked arithmetic makes of the exact computation `t`: the same result if every
step of `t` is in range, and a failure if some step is not. -/
structure Simulates {α β : Type} (exact : β → α) (Failed : β → Prop) (t : Traced α) (r : β) :
    Prop where
  result_eq : (∀ n ∈ t.steps, InRange n) → exact r = t.result
  failed : (∃ n ∈ t.steps, ¬InRange n) → Failed r

namespace Simulates

variable {α β : Type} {exact : β → α} {Failed : β → Prop}

/-- Without arithmetic the results are the same. -/
theorem of_no_steps {a : α} {r : β} (h : exact r = a) : Simulates exact Failed ⟨a, []⟩ r :=
  ⟨fun _ => h, fun ⟨_, hn, _⟩ => absurd hn List.not_mem_nil⟩

end Simulates

/-- The simulation of arithmetic. -/
abbrev SimulatesArithmetic : Traced (Except EvalError Int) → Except EvalError Number → Prop :=
  Simulates (Except.map Int64.toInt) fun r => ∃ e, r = .error e

/-- The simulation of evaluation. -/
abbrev SimulatesValue : Traced ExactValue → Value → Prop :=
  Simulates Value.exact fun v => v.isError = true

/-- Folding is simulated; the first step out of range ends the checked fold. -/
theorem simulates_foldSteps (op : Operator) (acc : Number) (bs : List Number) :
    SimulatesArithmetic (Exact.foldSteps op acc.toInt (bs.map Int64.toInt))
      (foldSteps op acc bs) := by
  induction bs generalizing acc with
  | nil => exact .of_no_steps rfl
  | cons b bs ih =>
    simp only [List.map_cons, Exact.foldSteps, foldSteps, step_eq_check]
    cases hs : Exact.step op acc.toInt b.toInt with
    | error e => exact .of_no_steps rfl
    | ok c =>
      by_cases hc : InRange c
      · obtain ⟨a, ha, rfl⟩ := check_of_inRange (.binary op) hc
        simp only [ha]
        refine ⟨fun h => (ih a).result_eq fun n hn => h n (List.mem_cons_of_mem _ hn), ?_⟩
        rintro ⟨n, hn, hr⟩
        rcases List.mem_cons.1 hn with rfl | hn
        · exact absurd hc hr
        · exact (ih a).failed ⟨n, hn, hr⟩
      · simp only [check_of_not_inRange _ hc]
        exact ⟨fun h => absurd (h c List.mem_cons_self) hc, fun _ => ⟨_, rfl⟩⟩

theorem simulates_reduce (op : Operator) (first : Number) (rest : List Number) :
    SimulatesArithmetic (Exact.reduce op first.toInt (rest.map Int64.toInt))
      (reduce op first rest) := by
  unfold Exact.reduce reduce
  by_cases h : op = .sub ∧ rest = []
  · rw [if_pos h, if_pos (by simpa using h), negate_eq_check]
    by_cases hn : InRange (-first.toInt)
    · obtain ⟨a, ha, hv⟩ := check_of_inRange .negation hn
      rw [ha]
      exact ⟨fun _ => congrArg Except.ok hv, fun ⟨n, hm, hr⟩ =>
        absurd (List.mem_singleton.1 hm ▸ hn) hr⟩
    · rw [check_of_not_inRange _ hn]
      exact ⟨fun h => absurd (h _ (List.mem_singleton_self _)) hn, fun _ => ⟨_, rfl⟩⟩
  · rw [if_neg h, if_neg (by simpa using h)]
    exact simulates_foldSteps op first rest

/-- A simulation of arithmetic is one of the values that the results become. -/
theorem SimulatesArithmetic.settle {t : Traced (Except EvalError Int)}
    {r : Except EvalError Number} (h : SimulatesArithmetic t r) :
    SimulatesValue ⟨Exact.settle t.result, t.steps⟩ (settle r) where
  result_eq hr := by
    rw [← h.result_eq hr]
    cases r <;> rfl
  failed hf := by
    obtain ⟨e, rfl⟩ := h.failed hf
    rfl

/-! ## Looking at values as exact ones -/

/-- **Nothing is lost** by looking at a value as an exact one. -/
theorem Value.exact_injective {v w : Value} (h : v.exact = w.exact) : v = w := by
  cases v <;> cases w <;> simp_all [Value.exact, Int64.toInt_inj]

@[simp] theorem Value.isError_exact (v : Value) : v.exact.isError = v.isError := by
  cases v <;> rfl

@[simp] theorem Value.symbol?_exact (v : Value) : v.exact.symbol? = v.symbol? := by
  cases v <;> rfl

@[simp] theorem Value.number?_exact (v : Value) :
    v.exact.number? = v.number?.map Int64.toInt := by
  cases v <;> rfl

/-- The operands of exact cells are the operands of the cells. -/
theorem mapM_number?_exact (cells : List Value) :
    (cells.map Value.exact).mapM ExactValue.number? =
      (operands? cells).map (List.map Int64.toInt) := by
  unfold operands?
  induction cells with
  | nil => rfl
  | cons c cs ih =>
    rw [List.map_cons, List.mapM_cons, List.mapM_cons, ih, Value.number?_exact]
    cases c.number? with
    | none => rfl
    | some n => cases cs.mapM Value.number? <;> rfl

theorem find?_isError_exact (cells : List Value) :
    (cells.map Value.exact).find? ExactValue.isError =
      (cells.find? Value.isError).map Value.exact := by
  rw [List.find?_map]
  congr 2
  exact funext Value.isError_exact

/-! ## Evaluation is simulated -/

theorem simulates_applyOperator (op : Operator) (cells : List Value) :
    SimulatesValue (Exact.applyOperator op (cells.map Value.exact))
      (applyOperator op (.sexpr cells)) := by
  simp only [Exact.applyOperator, applyOperator, Value.cells, Value.cells?, mapM_number?_exact]
  cases operands? cells with
  | none => exact .of_no_steps rfl
  | some ns =>
    cases ns with
    | nil => exact .of_no_steps rfl
    | cons n ns => exact (simulates_reduce op n ns).settle

theorem simulates_call (head : Value) (args : List Value) :
    SimulatesValue (Exact.call head.exact (args.map Value.exact)) (call head args) := by
  simp only [Exact.call, call, Value.symbol?_exact]
  cases head.symbol? with
  | none => exact .of_no_steps rfl
  | some symbol =>
    cases hop : Operator.ofSymbol? symbol with
    | none => simpa only [hop] using .of_no_steps rfl
    | some op => simpa only [hop] using simulates_applyOperator op args

/-- Reducing cells that are the same on both sides is simulated. -/
theorem simulates_reduceCells (cells : List Value) :
    SimulatesValue (Exact.reduceCells (cells.map Value.exact)) (reduceCells cells) := by
  simp only [Exact.reduceCells, reduceCells, find?_isError_exact]
  cases cells.find? Value.isError with
  | some error => exact .of_no_steps rfl
  | none =>
    match cells with
    | [] => exact .of_no_steps rfl
    | [cell] => exact .of_no_steps rfl
    | head :: arg :: args => exact simulates_call head (arg :: args)

/-- **Evaluation is simulated.** -/
theorem simulates_evaluate (v : Value) : SimulatesValue (Exact.evaluate v) (evaluate v) := by
  induction v with
  | number n => exact .of_no_steps (by rw [evaluate_number])
  | error message => exact .of_no_steps (by rw [evaluate_error])
  | symbol name => exact .of_no_steps (by rw [evaluate_symbol])
  | qexpr cells _ => exact .of_no_steps (by rw [evaluate_qexpr])
  | sexpr cells ih =>
    simp only [Exact.evaluate, Exact.evaluateAll_eq, evaluate_sexpr]
    by_cases hcells : ∀ c ∈ cells, ∀ n ∈ (Exact.evaluate c).steps, InRange n
    · -- every cell stays in range, so both sides reduce the same cells
      have hsame : (cells.map Exact.evaluate).map Traced.result =
          (cells.map evaluate).map Value.exact := by
        simp only [List.map_map]
        exact List.map_congr_left fun c hc => ((ih c hc).result_eq (hcells c hc)).symm
      rw [hsame]
      have hsim := simulates_reduceCells (cells.map evaluate)
      refine ⟨fun h => hsim.result_eq fun n hn => h n (List.mem_append_right _ hn), ?_⟩
      rintro ⟨n, hn, hr⟩
      rcases List.mem_append.1 hn with hn | hn
      · simp only [List.mem_flatMap, List.mem_map] at hn
        obtain ⟨_, ⟨c, hc, rfl⟩, hn⟩ := hn
        exact absurd (hcells c hc n hn) hr
      · exact hsim.failed ⟨n, hn, hr⟩
    · -- some cell leaves the range, so it is an error and poisons the list
      simp only [Classical.not_forall] at hcells
      obtain ⟨c, hc, n, hn, hr⟩ := hcells
      have hmem : n ∈ (cells.map Exact.evaluate).flatMap Traced.steps := by
        simp only [List.mem_flatMap, List.mem_map]
        exact ⟨_, ⟨c, hc, rfl⟩, hn⟩
      exact ⟨fun h => absurd (h n (List.mem_append_left _ hmem)) hr, fun _ =>
        isError_reduceCells (List.mem_map_of_mem hc) ((ih c hc).failed ⟨n, hn, hr⟩)⟩

/-- **Checked evaluation refines exact evaluation.** If every fold step and every negation of the
exact evaluation stays in the 64-bit range, both evaluations give the same; if some step leaves the
range, checked evaluation gives an error. So a number is only ever given where exact evaluation
gives it too, without a step out of range. -/
theorem evaluate_refines_exact (v : Value) :
    ((∀ n ∈ (Exact.evaluate v).steps, InRange n) →
      (evaluate v).exact = (Exact.evaluate v).result) ∧
    ((∃ n ∈ (Exact.evaluate v).steps, ¬InRange n) → ∃ message, evaluate v = .error message) ∧
    ∀ n, evaluate v = .number n →
      (Exact.evaluate v).result = .number n.toInt ∧ ∀ m ∈ (Exact.evaluate v).steps, InRange m := by
  have hsim := simulates_evaluate v
  refine ⟨hsim.result_eq, fun h => Value.isError_iff.1 (hsim.failed h), fun n hn => ?_⟩
  have hrange : ∀ m ∈ (Exact.evaluate v).steps, InRange m := by
    intro m hm
    by_cases hr : InRange m
    · exact hr
    · have herror := hsim.failed ⟨m, hm, hr⟩
      rw [hn] at herror
      cases herror
  refine ⟨?_, hrange⟩
  rw [← hsim.result_eq hrange, hn]
  rfl

end Abacus
