import Abacus.Proofs.Evaluation.ShortCircuit

/-!
# Where an evaluation fails

A failed evaluation can be traced to one node of the value. Nodes have addresses, the indices of
the cells on the way from the root. A node is live if all lists around it are S-expressions, and it
fails by itself if it is an error, or an S-expression whose cells are no errors but whose operator
has no result for them. What an evaluation reports is the first live node that fails, where cells
come before the lists around them and the left before the right.

Headlines:
* `isError_of_failsAt`: a live node that fails makes the whole value an error.
* `exists_first_of_evaluate`, `evaluate_eq_error_iff`: the error is that of the first such node.
* `evaluate_emptyQuotes`: the cells of quoted lists have no influence.
* `evaluate_reports_first_failure`: all of this together, and the short-circuit evaluator agrees.
-/

namespace Abacus

/-! ## Nodes and their addresses -/

/-- The node at an address. The empty address is the root, and an index goes on in that cell. -/
def Value.node? (v : Value) : List Nat → Option Value
  | [] => some v
  | i :: path => ((v.cells?.getD [])[i]?).bind fun c => c.node? path

/-- A node all of whose proper ancestors are S-expressions. -/
def Value.Live (v : Value) (path : List Nat) : Prop :=
  ∀ outer, outer <+: path → outer ≠ path → ∃ cells, v.node? outer = some (.sexpr cells)

theorem Value.live_nil (v : Value) : v.Live [] :=
  fun _ hp hne => absurd (List.prefix_nil.1 hp) hne

/-- Below the root, a live node is one of a cell of an S-expression. -/
theorem Value.live_cons_iff {v node : Value} {i : Nat} {path : List Nat} :
    (v.Live (i :: path) ∧ v.node? (i :: path) = some node) ↔
      ∃ cells c, v = .sexpr cells ∧ cells[i]? = some c ∧ c.Live path ∧ c.node? path = some node := by
  constructor
  · rintro ⟨hlive, hnode⟩
    obtain ⟨cells, hv⟩ := hlive [] List.nil_prefix (by simp)
    obtain rfl : v = .sexpr cells := Option.some.inj hv
    obtain ⟨c, hc, hnode⟩ := Option.bind_eq_some_iff.1 hnode
    have hc : cells[i]? = some c := hc
    refine ⟨cells, c, rfl, hc, fun outer hp hne => ?_, hnode⟩
    obtain ⟨inner, hinner⟩ := hlive (i :: outer) (List.cons_prefix_cons.2 ⟨rfl, hp⟩) (by simpa)
    refine ⟨inner, ?_⟩
    rw [← hinner]
    simp [node?, cells?, hc]
  · rintro ⟨cells, c, rfl, hc, hlive, hnode⟩
    refine ⟨fun outer hp hne => ?_, ?_⟩
    · cases outer with
      | nil => exact ⟨cells, rfl⟩
      | cons j outer =>
        obtain ⟨rfl, hrest⟩ := List.cons_prefix_cons.1 hp
        obtain ⟨inner, hinner⟩ := hlive outer hrest (by simpa using hne)
        exact ⟨inner, by simp [node?, cells?, hc, hinner]⟩
    · simp [node?, cells?, hc, hnode]

/-- The order in which nodes are finished: a node before the nodes around it, and among the cells of
one list the left before the right. -/
def Precedes : List Nat → List Nat → Prop
  | _ :: _, [] => True
  | [], _ => False
  | i :: p, j :: q => i < j ∨ i = j ∧ Precedes p q

theorem Precedes.asymm {p q : List Nat} (h : Precedes p q) : ¬Precedes q p := by
  induction p generalizing q with
  | nil => cases q <;> cases h
  | cons i p ih =>
    cases q with
    | nil => exact id
    | cons j q =>
      rintro (hlt' | ⟨he, h'⟩)
      · rcases h with hlt | ⟨rfl, -⟩ <;> omega
      · rcases h with hlt | ⟨-, h⟩
        · omega
        · exact ih h h'

/-! ## Nodes that fail -/

/-- A node that fails by itself: an error, or an S-expression whose cells are no errors once they are
evaluated but cannot be reduced. -/
inductive Value.FailsWith : Value → String → Prop
  | error (message : String) : FailsWith (.error message) message
  | sexpr {cells : List Value} {message : String}
      (hcells : ∀ c ∈ cells, (evaluate c).isError = false)
      (h : dispatch (cells.map evaluate) = .error message) : FailsWith (.sexpr cells) message

/-- A live node that fails, by its address. -/
structure FailsAt (v : Value) (path : List Nat) (message : String) : Prop where
  live : v.Live path
  fails : ∃ node, v.node? path = some node ∧ node.FailsWith message

/-- The live node that fails before all others. -/
structure FailsFirstAt (v : Value) (path : List Nat) (message : String) : Prop where
  fails : FailsAt v path message
  first : ∀ other message', FailsAt v other message' → other = path ∨ Precedes path other

theorem find?_isError_eq_none_iff {cells : List Value} :
    (cells.map evaluate).find? Value.isError = none ↔
      ∀ c ∈ cells, (evaluate c).isError = false := by
  simp

theorem evaluate_sexpr_of_no_error {cells : List Value}
    (h : ∀ c ∈ cells, (evaluate c).isError = false) :
    evaluate (.sexpr cells) = dispatch (cells.map evaluate) := by
  rw [evaluate_sexpr, reduceCells_eq_dispatch (find?_isError_eq_none_iff.2 h)]

/-- A node that fails by itself is evaluated to its own error. -/
theorem Value.FailsWith.evaluate_eq {v : Value} {message : String} (h : v.FailsWith message) :
    evaluate v = .error message := by
  cases h with
  | error => exact evaluate_error message
  | sexpr hcells h => rw [evaluate_sexpr_of_no_error hcells, h]

theorem failsAt_nil_iff {v : Value} {message : String} :
    FailsAt v [] message ↔ v.FailsWith message := by
  constructor
  · rintro ⟨-, node, hnode, h⟩
    cases hnode
    exact h
  · intro h
    exact ⟨v.live_nil, v, rfl, h⟩

/-- Below the root, a live node that fails is one of a cell of an S-expression. -/
theorem failsAt_cons_iff {v : Value} {i : Nat} {path : List Nat} {message : String} :
    FailsAt v (i :: path) message ↔
      ∃ cells c, v = .sexpr cells ∧ cells[i]? = some c ∧ FailsAt c path message := by
  constructor
  · rintro ⟨hlive, node, hnode, h⟩
    obtain ⟨cells, c, hv, hc, hlive, hnode⟩ := Value.live_cons_iff.1 ⟨hlive, hnode⟩
    exact ⟨cells, c, hv, hc, hlive, node, hnode, h⟩
  · rintro ⟨cells, c, hv, hc, hlive, node, hnode, h⟩
    obtain ⟨hlive, hnode⟩ := Value.live_cons_iff.2 ⟨cells, c, hv, hc, hlive, hnode⟩
    exact ⟨hlive, node, hnode, h⟩

/-- **A live node that fails makes the whole value an error.** -/
theorem isError_of_failsAt {v : Value} {path : List Nat} {message : String}
    (h : FailsAt v path message) : (evaluate v).isError = true := by
  induction path generalizing v with
  | nil =>
    rw [(failsAt_nil_iff.1 h).evaluate_eq]
    rfl
  | cons i path ih =>
    obtain ⟨cells, c, rfl, hc, h⟩ := failsAt_cons_iff.1 h
    rw [evaluate_sexpr]
    exact isError_reduceCells (List.mem_map_of_mem (List.mem_of_getElem? hc)) (ih h)

/-- A node fails with one message. -/
theorem FailsAt.message_unique {v : Value} {path : List Nat} {message message' : String}
    (h : FailsAt v path message) (h' : FailsAt v path message') : message = message' := by
  obtain ⟨node, hnode, h⟩ := h.fails
  obtain ⟨node', hnode', h'⟩ := h'.fails
  obtain rfl : node = node' := Option.some.inj (hnode.symm.trans hnode')
  exact Value.error.inj (h.evaluate_eq.symm.trans h'.evaluate_eq)

theorem FailsFirstAt.message_unique {v : Value} {p q : List Nat} {message message' : String}
    (h : FailsFirstAt v p message) (h' : FailsFirstAt v q message') : message = message' := by
  have hpq : q = p := by
    rcases h.first q message' h'.fails with he | hlt
    · exact he
    · rcases h'.first p message h.fails with he | hlt'
      · exact he.symm
      · exact absurd hlt' hlt.asymm
  subst hpq
  exact h.fails.message_unique h'.fails

/-! ## The first failure is reported -/

/-- The first error among evaluated cells, by the index of its cell. -/
theorem exists_index_of_find? {cells : List Value} {error : Value}
    (h : (cells.map evaluate).find? Value.isError = some error) :
    ∃ i c, cells[i]? = some c ∧ evaluate c = error ∧
      ∀ (j : Nat) (d : Value), j < i → cells[j]? = some d → (evaluate d).isError = false := by
  obtain ⟨-, i, hi, he, hfirst⟩ := List.find?_eq_some_iff_getElem.1 h
  rw [List.length_map] at hi
  refine ⟨i, cells[i], List.getElem?_eq_getElem hi, by simpa using he, fun j d hj hd => ?_⟩
  obtain ⟨hlt, rfl⟩ := List.getElem?_eq_some_iff.1 hd
  simpa using hfirst j hj

/-- In front of the first cell that is evaluated to an error no node fails. -/
theorem FailsFirstAt.cons {cells : List Value} {i : Nat} {c : Value} {path : List Nat}
    {message : String} (hc : cells[i]? = some c) (h : FailsFirstAt c path message)
    (hbefore : ∀ (j : Nat) (d : Value), j < i → cells[j]? = some d → (evaluate d).isError = false) :
    FailsFirstAt (.sexpr cells) (i :: path) message := by
  refine ⟨failsAt_cons_iff.2 ⟨cells, c, rfl, hc, h.fails⟩, fun other message' hother => ?_⟩
  cases other with
  | nil => exact .inr trivial
  | cons j other =>
    obtain ⟨_, d, he, hd, hfails⟩ := failsAt_cons_iff.1 hother
    cases he
    rcases Nat.lt_trichotomy j i with hlt | rfl | hlt
    · have hfalse := hbefore j d hlt hd
      rw [isError_of_failsAt hfails] at hfalse
      cases hfalse
    · obtain rfl : c = d := Option.some.inj (hc.symm.trans hd)
      rcases h.first other message' hfails with rfl | hlt
      · exact .inl rfl
      · exact .inr (.inr ⟨rfl, hlt⟩)
    · exact .inr (.inl hlt)

/-- An S-expression that fails by itself has no node below it that fails. -/
theorem failsFirstAt_nil {cells : List Value} {message : String}
    (hcells : ∀ c ∈ cells, (evaluate c).isError = false)
    (h : dispatch (cells.map evaluate) = .error message) :
    FailsFirstAt (.sexpr cells) [] message := by
  refine ⟨failsAt_nil_iff.2 (.sexpr hcells h), fun other message' hother => ?_⟩
  cases other with
  | nil => exact .inl rfl
  | cons j other =>
    obtain ⟨_, d, he, hd, hfails⟩ := failsAt_cons_iff.1 hother
    cases he
    have hfalse := hcells d (List.mem_of_getElem? hd)
    rw [isError_of_failsAt hfails] at hfalse
    cases hfalse

theorem exists_first_of_evaluate {v : Value} {message : String} (h : evaluate v = .error message) :
    ∃ path, FailsFirstAt v path message := by
  induction v generalizing message with
  | number n =>
    rw [evaluate_number] at h
    cases h
  | symbol name =>
    rw [evaluate_symbol] at h
    cases h
  | qexpr cells _ =>
    rw [evaluate_qexpr] at h
    cases h
  | error text =>
    rw [evaluate_error] at h
    cases h
    refine ⟨[], failsAt_nil_iff.2 (.error text), fun other message' hother => ?_⟩
    cases other with
    | nil => exact .inl rfl
    | cons j other =>
      obtain ⟨_, _, he, -⟩ := failsAt_cons_iff.1 hother
      cases he
  | sexpr cells ih =>
    cases hf : (cells.map evaluate).find? Value.isError with
    | none =>
      have hcells := find?_isError_eq_none_iff.1 hf
      rw [evaluate_sexpr_of_no_error hcells] at h
      exact ⟨[], failsFirstAt_nil hcells h⟩
    | some error =>
      rw [evaluate_sexpr, reduceCells_of_find? hf] at h
      obtain ⟨i, c, hc, he, hbefore⟩ := exists_index_of_find? hf
      obtain ⟨path, hpath⟩ := ih c (List.mem_of_getElem? hc) (he.trans h)
      exact ⟨i :: path, hpath.cons hc hbefore⟩

/-- **The error of an evaluation is that of the first live node that fails.** -/
theorem evaluate_eq_error_iff {v : Value} {message : String} :
    evaluate v = .error message ↔ ∃ path, FailsFirstAt v path message := by
  constructor
  · exact exists_first_of_evaluate
  · rintro ⟨path, hpath⟩
    obtain ⟨message', he⟩ := Value.isError_iff.1 (isError_of_failsAt hpath.fails)
    obtain ⟨path', hpath'⟩ := exists_first_of_evaluate he
    rw [he, hpath.message_unique hpath']

/-! ## Quoted lists -/

namespace Value

/-- A value without the cells of those quoted lists that evaluation reaches. -/
def emptyQuotes (v : Value) : Value :=
  evaluation.fold (fun v results =>
    match v with
    | .sexpr _ => .sexpr results
    | .qexpr _ => .qexpr []
    | v => v) v

@[simp] theorem emptyQuotes_sexpr (cells : List Value) :
    emptyQuotes (.sexpr cells) = .sexpr (cells.map emptyQuotes) :=
  evaluation.fold_eq _ (.sexpr cells)

@[simp] theorem emptyQuotes_number (n : Number) : emptyQuotes (.number n) = .number n :=
  evaluation.fold_eq _ (.number n)

@[simp] theorem emptyQuotes_error (message : String) :
    emptyQuotes (.error message) = .error message :=
  evaluation.fold_eq _ (.error message)

@[simp] theorem emptyQuotes_symbol (name : String) : emptyQuotes (.symbol name) = .symbol name :=
  evaluation.fold_eq _ (.symbol name)

@[simp] theorem emptyQuotes_qexpr (cells : List Value) : emptyQuotes (.qexpr cells) = .qexpr [] :=
  evaluation.fold_eq _ (.qexpr cells)

@[simp] theorem isError_emptyQuotes (v : Value) : v.emptyQuotes.isError = v.isError := by
  cases v <;> simp [isError]

@[simp] theorem symbol?_emptyQuotes (v : Value) : v.emptyQuotes.symbol? = v.symbol? := by
  cases v <;> simp [symbol?]

@[simp] theorem number?_emptyQuotes (v : Value) : v.emptyQuotes.number? = v.number? := by
  cases v <;> simp [number?]

theorem emptyQuotes_eq_error_iff {v : Value} {message : String} :
    v.emptyQuotes = .error message ↔ v = .error message := by
  cases v <;> simp

theorem IsOutcome.emptyQuotes_eq {v : Value} (h : v.IsOutcome) : v.emptyQuotes = v := by
  rcases h with ⟨n, rfl⟩ | ⟨message, rfl⟩
  · exact emptyQuotes_number n
  · exact emptyQuotes_error message

end Value

open Value (emptyQuotes)

/-- An operator does not look into its operands. -/
theorem call_map_emptyQuotes (head : Value) (args : List Value) :
    call head.emptyQuotes (args.map emptyQuotes) = call head args := by
  have hoperands : operands? (args.map emptyQuotes) = operands? args := by
    unfold operands?
    rw [List.mapM_map]
    congr 1
    exact funext Value.number?_emptyQuotes
  unfold call applyOperator
  simp only [Value.symbol?_emptyQuotes, Value.cells, Value.cells?, hoperands]

theorem dispatch_map_emptyQuotes (cells : List Value) :
    dispatch (cells.map emptyQuotes) = (dispatch cells).emptyQuotes := by
  match cells with
  | [] => simp [dispatch]
  | [cell] => rfl
  | head :: arg :: args =>
    exact (call_map_emptyQuotes head (arg :: args)).trans (isOutcome_call _ _).emptyQuotes_eq.symm

theorem reduceCells_map_emptyQuotes (cells : List Value) :
    reduceCells (cells.map emptyQuotes) = (reduceCells cells).emptyQuotes := by
  have hfind : (cells.map emptyQuotes).find? Value.isError =
      (cells.find? Value.isError).map emptyQuotes := by
    rw [List.find?_map]
    congr 2
    exact funext Value.isError_emptyQuotes
  cases hf : cells.find? Value.isError with
  | some error =>
    rw [hf] at hfind
    rw [reduceCells_of_find? hf, reduceCells_of_find? hfind]
  | none =>
    rw [hf] at hfind
    rw [reduceCells_eq_dispatch hf, reduceCells_eq_dispatch hfind, dispatch_map_emptyQuotes]

/-- **Evaluation does not look into quoted lists.** -/
theorem evaluate_emptyQuotes (v : Value) : evaluate v.emptyQuotes = (evaluate v).emptyQuotes := by
  induction v with
  | number n => simp
  | error message => simp
  | symbol name => simp
  | qexpr cells _ => simp
  | sexpr cells ih =>
    rw [Value.emptyQuotes_sexpr, evaluate_sexpr, evaluate_sexpr, ← reduceCells_map_emptyQuotes,
      List.map_map, List.map_map]
    exact congrArg reduceCells (List.map_congr_left ih)

/-- **Eager evaluation reports the failure that is met first.** It gives what the evaluator gives
that stops at the first error; it is an error exactly if some live node fails; its message is that
of the live node that fails before all others; and no error inside a quoted list has a part in it:
values that differ in quoted cells only fail alike. -/
theorem evaluate_reports_first_failure (v : Value) :
    evaluate v = ShortCircuit.evaluate v ∧
    ((∃ message, evaluate v = .error message) ↔ ∃ path message, FailsAt v path message) ∧
    (∀ message, evaluate v = .error message ↔
      ∃ path, FailsAt v path message ∧
        ∀ other message', FailsAt v other message' → other = path ∨ Precedes path other) ∧
    ∀ w : Value, w.emptyQuotes = v.emptyQuotes →
      ∀ message, evaluate w = .error message ↔ evaluate v = .error message := by
  refine ⟨(ShortCircuit.evaluate_eq v).symm, ⟨?_, ?_⟩, fun message => ⟨fun h => ?_, ?_⟩, ?_⟩
  · rintro ⟨message, h⟩
    obtain ⟨path, hpath⟩ := exists_first_of_evaluate h
    exact ⟨path, message, hpath.fails⟩
  · rintro ⟨path, message, h⟩
    exact Value.isError_iff.1 (isError_of_failsAt h)
  · obtain ⟨path, hpath⟩ := exists_first_of_evaluate h
    exact ⟨path, hpath.fails, hpath.first⟩
  · rintro ⟨path, hfails, hfirst⟩
    exact evaluate_eq_error_iff.2 ⟨path, hfails, hfirst⟩
  · intro w hw message
    rw [← Value.emptyQuotes_eq_error_iff, ← evaluate_emptyQuotes, hw, evaluate_emptyQuotes,
      Value.emptyQuotes_eq_error_iff]

end Abacus
