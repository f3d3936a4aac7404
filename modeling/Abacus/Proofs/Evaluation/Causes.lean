import Abacus.Proofs.Evaluation.Replacement
import Abacus.Proofs.Value.RoundTrip

/-!
# Why an evaluation fails

An error value carries a message only. `Recorded.evaluate` follows the same rules as `evaluate` and
also keeps a record of the cause of every error that it makes, those included that some other error
hides in the end. It takes cells out of lists by `Value.take` and `Value.pop` and has a failure ready
wherever such an access is refused. The record shows that no access is ever refused, and that no
operator is ever left without operands.

Headlines:
* `Recorded.reduceCells_eq`: no access to cells is refused.
* `Recorded.result_evaluate`: keeping a record changes no result.
* `Recorded.reduces_reduceCells`: everything that can become of evaluated cells.
* `Recorded.mayRaise_of_mem_causes`: the causes that a value can have.
* `Recorded.exposed_or_mem_causes`: an error was in the value, or its cause is on record.
* `evaluation_failures_closed`: the messages of failed evaluations, of values and of sources.
-/

namespace Abacus

/-! ## Possible causes -/

/-- The causes that do not depend on the symbols of a value. -/
def EvalError.IsOrdinary : EvalError → Prop
  | divisionByZero | nonNumberOperand | badHead | integerOverflow _ => True
  | unknownOperator _ | missingOperands _ | cell _ => False

/-- The causes of the errors that are made when a value is evaluated. -/
inductive Value.MayRaise (v : Value) : EvalError → Prop
  | ordinary {e : EvalError} (he : e.IsOrdinary) : MayRaise v e
  | unknownOperator {name : String} (hname : (Value.symbol name).Exposed v)
      (h : Operator.ofSymbol? name = none) : MayRaise v (.unknownOperator name)

theorem Value.MayRaise.sexpr {c : Value} {cells : List Value} {e : EvalError} (hc : c ∈ cells)
    (h : c.MayRaise e) : (Value.sexpr cells).MayRaise e := by
  cases h with
  | ordinary he => exact .ordinary he
  | unknownOperator hname hop => exact .unknownOperator (hname.sexpr hc) hop

theorem isOrdinary_of_step {op : Operator} {a b : Number} {e : EvalError}
    (h : step op a b = .error e) : e.IsOrdinary := by
  unfold step at h
  split at h
  · cases h
    trivial
  · split at h
    · cases h
    · cases h
      trivial

theorem isOrdinary_of_foldSteps {op : Operator} {acc : Number} {bs : List Number} {e : EvalError}
    (h : foldSteps op acc bs = .error e) : e.IsOrdinary := by
  induction bs generalizing acc with
  | nil => cases h
  | cons b bs ih =>
    rw [foldSteps] at h
    split at h
    · exact ih h
    · next hs =>
      cases h
      exact isOrdinary_of_step hs

theorem isOrdinary_of_reduce {op : Operator} {first : Number} {rest : List Number} {e : EvalError}
    (h : reduce op first rest = .error e) : e.IsOrdinary := by
  unfold reduce negate at h
  split at h
  · split at h
    · cases h
    · cases h
      trivial
  · exact isOrdinary_of_foldSteps h

/-! ## Evaluation with a record -/

/-- A result, with the causes of all errors that were made on the way to it. -/
structure Recorded where
  result : Value
  causes : List EvalError

namespace Recorded

/-- A result without an error made for it. -/
def ok (v : Value) : Recorded := ⟨v, []⟩

/-- An error made for the given cause. -/
def fail (e : EvalError) : Recorded := ⟨e.toValue, [e]⟩

/-- The result of an access to cells. -/
def ofAccess : Except CellError Value → Recorded
  | .ok v => ok v
  | .error e => fail (.cell e)

/-- The result of a computation. -/
def settle : Except EvalError Number → Recorded
  | .ok n => ok (.number n)
  | .error e => fail e

/-- Apply an operator to the cells of `args`. -/
def applyOperator (op : Operator) (args : Value) : Recorded :=
  match args.cells with
  | .error e => fail (.cell e)
  | .ok cells =>
    match operands? cells with
    | none => fail .nonNumberOperand
    | some [] => fail (.missingOperands op)
    | some (first :: rest) => settle (reduce op first rest)

/-- Apply the operator named by `head` to the cells of `args`. -/
def call (head args : Value) : Recorded :=
  match head.symbol? with
  | none => fail .badHead
  | some symbol =>
    match Operator.ofSymbol? symbol with
    | none => fail (.unknownOperator symbol)
    | some op => applyOperator op args

/-- Reduce evaluated cells, taking them out of their list one by one. -/
def reduceCells (cells : List Value) : Recorded :=
  match cells.findIdx? Value.isError with
  | some index => ofAccess ((Value.sexpr cells).take index)
  | none =>
    match cells.length with
    | 0 => ok (.sexpr cells)
    | 1 => ofAccess ((Value.sexpr cells).take 0)
    | _ =>
      match (Value.sexpr cells).pop 0 with
      | .ok (head, args) => call head args
      | .error e => fail (.cell e)

/-- The result of a node, given those of the cells that are evaluated before it. -/
def reduceNode (v : Value) (results : List Recorded) : Recorded :=
  if v.kind = .sexpr then
    match v.cells with
    | .ok _ =>
      let reduced := reduceCells (results.map result)
      ⟨reduced.result, results.flatMap causes ++ reduced.causes⟩
    | .error e => fail (.cell e)
  else ok v

/-- Evaluate a value and keep a record. -/
def evaluate (v : Value) : Recorded := evaluation.fold reduceNode v

theorem evaluate_sexpr (cells : List Value) :
    evaluate (.sexpr cells) =
      ⟨(reduceCells ((cells.map evaluate).map result)).result,
        (cells.map evaluate).flatMap causes ++
          (reduceCells ((cells.map evaluate).map result)).causes⟩ :=
  evaluation.fold_eq reduceNode (.sexpr cells)

@[simp] theorem evaluate_number (n : Number) : evaluate (.number n) = ok (.number n) :=
  evaluation.fold_eq reduceNode (.number n)

@[simp] theorem evaluate_error (message : String) : evaluate (.error message) = ok (.error message) :=
  evaluation.fold_eq reduceNode (.error message)

@[simp] theorem evaluate_symbol (name : String) : evaluate (.symbol name) = ok (.symbol name) :=
  evaluation.fold_eq reduceNode (.symbol name)

@[simp] theorem evaluate_qexpr (cells : List Value) : evaluate (.qexpr cells) = ok (.qexpr cells) :=
  evaluation.fold_eq reduceNode (.qexpr cells)

/-! ## No access is refused -/

theorem take_sexpr {cells : List Value} {index : Nat} {c : Value} (h : cells[index]? = some c) :
    (Value.sexpr cells).take index = .ok c :=
  Value.take_eq_ok_iff.2 ⟨_, Value.pop_eq_ok_iff.2 ⟨cells, rfl, h, rfl⟩⟩

/-- The scan for the first error gives the index of a cell. -/
theorem find?_of_findIdx? {cells : List Value} {index : Nat}
    (h : cells.findIdx? Value.isError = some index) :
    ∃ c, cells[index]? = some c ∧ cells.find? Value.isError = some c := by
  obtain ⟨hlt, herror, hfirst⟩ := List.findIdx?_eq_some_iff_getElem.1 h
  refine ⟨cells[index], List.getElem?_eq_getElem hlt, List.find?_eq_some_iff_getElem.2 ?_⟩
  exact ⟨herror, index, hlt, rfl, fun j hj => by simpa using hfirst j hj⟩

/-- **No access is refused.** The scan ends at a cell, and a list of at least one cell has a first
one. -/
theorem reduceCells_eq (cells : List Value) :
    reduceCells cells =
      match cells.find? Value.isError with
      | some error => ok error
      | none =>
        match cells with
        | [] => ok (.sexpr [])
        | [cell] => ok cell
        | head :: args => call head (.sexpr args) := by
  unfold reduceCells
  cases hi : cells.findIdx? Value.isError with
  | some index =>
    obtain ⟨c, hc, hf⟩ := find?_of_findIdx? hi
    simp only [take_sexpr hc, hf]
    rfl
  | none =>
    have hf : cells.find? Value.isError = none := by
      simpa [List.findIdx?_eq_none_iff] using hi
    simp only [hf]
    match cells with
    | [] => rfl
    | [c] => rfl
    | head :: arg :: args => rfl

/-- The first cell is taken out of the list and turns out to be no symbol. -/
example : reduceCells [.number 1, .number 2] = fail .badHead := by rfl

/-! ## Keeping a record changes no result -/

theorem result_settle (r : Except EvalError Number) : (settle r).result = Abacus.settle r := by
  cases r <;> rfl

theorem result_applyOperator (op : Operator) (args : Value) :
    (applyOperator op args).result = Abacus.applyOperator op args := by
  unfold applyOperator Abacus.applyOperator
  cases args.cells with
  | error e => rfl
  | ok cells =>
    dsimp only
    cases operands? cells with
    | none => rfl
    | some ns =>
      cases ns with
      | nil => rfl
      | cons n ns => exact result_settle _

theorem result_call (head : Value) (args : List Value) :
    (call head (.sexpr args)).result = Abacus.call head args := by
  unfold call Abacus.call
  cases head.symbol? with
  | none => rfl
  | some symbol =>
    dsimp only
    cases Operator.ofSymbol? symbol with
    | none => rfl
    | some op => exact result_applyOperator op _

theorem result_reduceCells (cells : List Value) :
    (reduceCells cells).result = Abacus.reduceCells cells := by
  rw [reduceCells_eq]
  unfold Abacus.reduceCells
  cases cells.find? Value.isError with
  | some error => rfl
  | none =>
    match cells with
    | [] => rfl
    | [c] => rfl
    | head :: arg :: args => exact result_call head (arg :: args)

/-- **Keeping a record changes no result.** -/
theorem result_evaluate (v : Value) : (evaluate v).result = Abacus.evaluate v := by
  induction v with
  | number _ | error _ | symbol _ => simp [ok]
  | qexpr cells _ => simp [ok]
  | sexpr cells ih =>
    have hcells : (cells.map evaluate).map result = cells.map Abacus.evaluate := by
      rw [List.map_map]
      exact List.map_congr_left ih
    rw [evaluate_sexpr, hcells, Abacus.evaluate_sexpr]
    exact result_reduceCells _

/-! ## What is on record -/

/-- What can become of evaluated cells: one of them, the empty list, a number, or an error made for
one of a few causes. -/
inductive Reduces (cells : List Value) : Recorded → Prop
  | cell {c : Value} (hc : c ∈ cells) : Reduces cells (ok c)
  | empty : Reduces cells (ok (.sexpr []))
  | number (n : Number) : Reduces cells (ok (.number n))
  | ordinary {e : EvalError} (he : e.IsOrdinary) : Reduces cells (fail e)
  | unknownOperator {name : String} (hname : Value.symbol name ∈ cells)
      (h : Operator.ofSymbol? name = none) : Reduces cells (fail (.unknownOperator name))

theorem reduces_settle (cells : List Value) {r : Except EvalError Number}
    (h : ∀ e, r = .error e → e.IsOrdinary) : Reduces cells (settle r) := by
  cases r with
  | ok n => exact .number n
  | error e => exact .ordinary (h e rfl)

/-- At least one operand is there, and it is in a list. -/
theorem reduces_applyOperator (cells : List Value) (op : Operator) (arg : Value)
    (args : List Value) : Reduces cells (applyOperator op (.sexpr (arg :: args))) := by
  simp only [applyOperator, Value.cells, Value.cells?]
  split
  · exact .ordinary trivial
  · next h => cases operands?_eq_some_iff.1 h
  · exact reduces_settle cells fun e => isOrdinary_of_reduce

theorem reduces_call (head arg : Value) (args : List Value) :
    Reduces (head :: arg :: args) (call head (.sexpr (arg :: args))) := by
  unfold call
  split
  · exact .ordinary trivial
  · next symbol hsymbol =>
    obtain rfl := Value.symbol?_eq_some_iff.1 hsymbol
    split
    · next h => exact .unknownOperator List.mem_cons_self h
    · exact reduces_applyOperator _ _ arg args

/-- **Everything that can become of evaluated cells.** -/
theorem reduces_reduceCells (cells : List Value) : Reduces cells (reduceCells cells) := by
  rw [reduceCells_eq]
  cases hf : cells.find? Value.isError with
  | some error => exact .cell (List.mem_of_find?_eq_some hf)
  | none =>
    match cells with
    | [] => exact .empty
    | [c] => exact .cell List.mem_cons_self
    | head :: arg :: args => exact reduces_call head arg args

theorem causes_sexpr (cells : List Value) :
    (evaluate (.sexpr cells)).causes =
      (cells.map evaluate).flatMap causes ++ (reduceCells (cells.map Abacus.evaluate)).causes := by
  have hcells : (cells.map evaluate).map result = cells.map Abacus.evaluate := by
    rw [List.map_map]
    exact List.map_congr_left fun c _ => result_evaluate c
  rw [evaluate_sexpr, hcells]

/-- **The causes on record** are those that the value can have. -/
theorem mayRaise_of_mem_causes {v : Value} {e : EvalError} (h : e ∈ (evaluate v).causes) :
    v.MayRaise e := by
  induction v with
  | number _ | error _ | symbol _ => simp [ok] at h
  | qexpr cells _ => simp [ok] at h
  | sexpr cells ih =>
    rw [causes_sexpr] at h
    rcases List.mem_append.1 h with h | h
    · obtain ⟨_, hr, he⟩ := List.mem_flatMap.1 h
      obtain ⟨c, hc, rfl⟩ := List.mem_map.1 hr
      exact (ih c hc he).sexpr hc
    · have hr := reduces_reduceCells (cells.map Abacus.evaluate)
      generalize reduceCells (cells.map Abacus.evaluate) = r at h hr
      cases hr with
      | cell _ | empty | number _ => cases h
      | ordinary he =>
        obtain rfl := List.mem_singleton.1 h
        exact .ordinary he
      | unknownOperator hname hop =>
        obtain rfl := List.mem_singleton.1 h
        obtain ⟨c, hc, he⟩ := List.mem_map.1 hname
        have hx : (Abacus.evaluate c).Exposed c := exposed_of_isInert (.inl ⟨_, he⟩)
        exact .unknownOperator (he ▸ hx.sexpr hc) hop

/-- **Where an error comes from.** It was in the value, as a live node, or its cause is on record. -/
theorem exposed_or_mem_causes {v : Value} {message : String}
    (h : Abacus.evaluate v = .error message) :
    (Value.error message).Exposed v ∨ ∃ e ∈ (evaluate v).causes, message = e.message := by
  induction v with
  | number _ | symbol _ => simp at h
  | qexpr cells _ => simp at h
  | error text =>
    rw [Abacus.evaluate_error] at h
    exact .inl (h ▸ Value.exposed_refl _)
  | sexpr cells ih =>
    have hr := reduces_reduceCells (cells.map Abacus.evaluate)
    rw [Abacus.evaluate_sexpr, ← result_reduceCells] at h
    rw [causes_sexpr]
    generalize reduceCells (cells.map Abacus.evaluate) = r at h hr ⊢
    cases hr with
    | cell hresult =>
      obtain ⟨c, hc, rfl⟩ := List.mem_map.1 hresult
      rcases ih c hc h with hx | ⟨e, he, hm⟩
      · exact .inl (hx.sexpr hc)
      · have hmem : e ∈ (cells.map evaluate).flatMap causes :=
          List.mem_flatMap.2 ⟨_, List.mem_map_of_mem hc, he⟩
        exact .inr ⟨e, List.mem_append_left _ hmem, hm⟩
    | empty | number _ => cases h
    | ordinary _ | unknownOperator _ _ =>
      exact .inr ⟨_, List.mem_append_right _ (List.mem_singleton_self _), (Value.error.inj h).symm⟩

end Recorded

/-! ## The messages of failed evaluations -/

/-- The messages of errors that do not depend on the symbols of a value. -/
def ordinaryMessages : List String :=
  ["Division By Zero", "Cannot operator on non number!", "S-expression Does not start with symbol",
    "integer overflow in addition", "integer overflow in subtraction",
    "integer overflow in multiplication", "integer overflow in division",
    "integer overflow in negation"]

theorem EvalError.IsOrdinary.message_mem {e : EvalError} (h : e.IsOrdinary) :
    e.message ∈ ordinaryMessages := by
  cases e with
  | divisionByZero | nonNumberOperand | badHead => decide
  | integerOverflow operation =>
    cases operation with
    | binary op => cases op <;> decide
    | negation => decide
  | unknownOperator _ | missingOperands _ | cell _ => cases h

theorem Value.Exposed.within {w v : Value} (h : w.Exposed v) : w.Within v := by
  obtain ⟨C, rfl⟩ := exposed_iff.1 h
  induction C with
  | hole => exact .refl
  | sexpr before inner after ih =>
    exact .sexpr (List.mem_append_right _ List.mem_cons_self) (ih (exposed_iff.2 ⟨inner, rfl⟩))

/-- The messages of a failed evaluation. -/
theorem message_of_evaluate {v : Value} {message : String} (h : evaluate v = .error message) :
    (Value.error message).Exposed v ∨ message ∈ ordinaryMessages ∨
      ∃ name, (Value.symbol name).Exposed v ∧ name ∉ ["+", "-", "*", "/"] ∧
        message = (EvalError.unknownOperator name).message := by
  rcases Recorded.exposed_or_mem_causes h with hx | ⟨e, he, rfl⟩
  · exact .inl hx
  · refine .inr ?_
    cases Recorded.mayRaise_of_mem_causes he with
    | ordinary he => exact .inl he.message_mem
    | @unknownOperator name hname hop =>
      refine .inr ⟨name, hname, fun hmem => ?_, rfl⟩
      obtain ⟨op, rfl⟩ := exists_symbol_of_mem hmem
      rw [Operator.ofSymbol?_symbol] at hop
      cases hop

open Abacus.Tree in
/-- The messages of a failed evaluation of a source. -/
theorem message_of_evalSource {source message : String} (hl : source.utf8ByteSize ≤ Span.limit)
    (h : evalSource source = .ok (.error message)) :
    message ∈ invalidNumber :: ordinaryMessages := by
  unfold evalSource at h
  split at h
  · next v hv =>
    obtain ⟨tokens, values, hlex, hd, rfl⟩ := (readSource_eq_ok_iff hl).1 hv
    have hs := wellSpelled_of_lex hlex hl
    have hcell : ∀ {w : Value}, w.Within (.sexpr values) → w ≠ .sexpr values →
        ∃ c ∈ values, w.Within c :=
      fun hw hne => (Value.within_sexpr_iff.1 hw).resolve_left hne
    rcases message_of_evaluate (Except.ok.inj h) with hx | hm | ⟨name, hx, hname, -⟩
    · obtain ⟨c, hc, hw⟩ := hcell hx.within (by simp)
      rw [error_of_denotes hd hs hc hw]
      exact List.mem_cons_self
    · exact List.mem_cons_of_mem _ hm
    · obtain ⟨c, hc, hw⟩ := hcell hx.within (by simp)
      exact absurd (symbol_of_denotes hd hs hc hw) hname
  · cases h

/-- **The failures of evaluation are a closed set.** For a source, the message is that of a numeral
out of range or one of eight others, and never one about an unknown operator, missing operands or
an internal error. For any value, the error was in it as a live node, or its message is one of the
eight, or it names a live symbol that is no operator. On the way to any result no access to cells is
refused, and no operator is left without operands. -/
theorem evaluation_failures_closed :
    (∀ source message, source.utf8ByteSize ≤ Span.limit →
      evalSource source = .ok (.error message) →
        message ∈ "invalid number" :: ordinaryMessages ∧
        ∀ mark ∈ ["unknown operator ", "operator ", "internal error: "],
          ¬mark.toList <+: message.toList) ∧
    ∀ v : Value,
      (∀ message, evaluate v = .error message →
        (Value.error message).Exposed v ∨ message ∈ ordinaryMessages ∨
          ∃ name, (Value.symbol name).Exposed v ∧ name ∉ ["+", "-", "*", "/"] ∧
            message = (EvalError.unknownOperator name).message) ∧
      (Recorded.evaluate v).result = evaluate v ∧
      ∀ e ∈ (Recorded.evaluate v).causes,
        (∀ error, e ≠ .cell error) ∧ ∀ op, e ≠ .missingOperands op := by
  refine ⟨fun source message hl h => ?_, fun v => ⟨fun message => message_of_evaluate,
    Recorded.result_evaluate v, fun e he => ?_⟩⟩
  · have hmarks : ∀ m ∈ "invalid number" :: ordinaryMessages,
        ∀ mark ∈ ["unknown operator ", "operator ", "internal error: "],
          ¬mark.toList <+: m.toList := by decide +kernel
    have hm := message_of_evalSource hl h
    exact ⟨hm, hmarks message hm⟩
  · cases Recorded.mayRaise_of_mem_causes he with
    | ordinary he => constructor <;> rintro _ rfl <;> cases he
    | unknownOperator _ _ => constructor <;> rintro _ he <;> cases he

end Abacus
