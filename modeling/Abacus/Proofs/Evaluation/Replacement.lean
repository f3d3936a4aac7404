import Abacus.Proofs.Evaluation.Failure
import Abacus.Proofs.Evaluation.NormalForm

/-!
# Replacing parts of a value

Two kinds of replacement keep what a value evaluates to. A part that has only S-expressions around
it can be replaced by any other that evaluates to the same, because every rule looks at a cell
through its result alone. And the cells of a quoted list can be replaced by any others, because no
rule looks at them at all: only a result that is itself a quoted list shows the difference.

The places of the first kind are described by a `Context`, a value with a hole. The second kind is
described by `Value.Similar`, a relation between the two values.

Headlines:
* `Value.exposed_iff`: the holes of contexts are the live nodes.
* `evaluate_plug_congr`, `evaluate_plug`: substitution under S-expressions.
* `similar_iff`: similar values are the same once quoted lists are emptied.
* `evaluate_similar`: quoted cells have no influence on a result.
-/

namespace Abacus

/-! ## Parts with S-expressions around them -/

/-- A value with a hole in it that has only S-expressions around it. -/
inductive Context where
  | hole
  | sexpr (before : List Value) (inner : Context) (after : List Value)

/-- The value that results from filling the hole. -/
def Context.plug : Context → Value → Value
  | hole, v => v
  | sexpr before inner after, v => .sexpr (before ++ inner.plug v :: after)

/-- `w.Exposed v` says that `w` occurs in `v` as a live node. -/
def Value.Exposed (w v : Value) : Prop := ∃ path, v.Live path ∧ v.node? path = some w

/-- **The holes of contexts are the live nodes.** -/
theorem Value.exposed_iff {w v : Value} : w.Exposed v ↔ ∃ C : Context, v = C.plug w := by
  constructor
  · rintro ⟨path, h⟩
    induction path generalizing v with
    | nil => exact ⟨.hole, Option.some.inj h.2⟩
    | cons i path ih =>
      obtain ⟨cells, c, rfl, hc, hc'⟩ := live_cons_iff.1 h
      obtain ⟨C, rfl⟩ := ih hc'
      obtain ⟨before, after, rfl⟩ := List.append_of_mem (List.mem_of_getElem? hc)
      exact ⟨.sexpr before C after, rfl⟩
  · rintro ⟨C, rfl⟩
    induction C with
    | hole => exact ⟨[], w.live_nil, rfl⟩
    | sexpr before inner after ih =>
      obtain ⟨path, h⟩ := ih
      refine ⟨before.length :: path, live_cons_iff.2 ⟨_, inner.plug w, rfl, ?_, h⟩⟩
      rw [List.getElem?_append_right (Nat.le_refl _), Nat.sub_self, List.getElem?_cons_zero]

theorem Value.exposed_refl (v : Value) : v.Exposed v := exposed_iff.2 ⟨.hole, rfl⟩

theorem Value.Exposed.sexpr {w c : Value} {cells : List Value} (hc : c ∈ cells)
    (h : w.Exposed c) : w.Exposed (.sexpr cells) := by
  obtain ⟨C, rfl⟩ := exposed_iff.1 h
  obtain ⟨before, after, rfl⟩ := List.append_of_mem hc
  exact exposed_iff.2 ⟨.sexpr before C after, rfl⟩

theorem Value.exposed_wrap (v : Value) (n : Nat) : v.Exposed (v.wrap n) := by
  induction n with
  | zero => exact v.exposed_refl
  | succ n ih => exact ih.sexpr List.mem_cons_self

/-- An inert result is a live node of the value. -/
theorem exposed_of_isInert {v : Value} (h : (evaluate v).IsInert) : (evaluate v).Exposed v := by
  obtain ⟨n, hn⟩ := v.exists_wrap_strip
  have hx := v.strip.exposed_wrap n
  rw [← hn, ← evaluate_of_isInert_strip (isInert_evaluate_iff.1 h)] at hx
  exact hx

/-- Parts that evaluate to the same can be exchanged. -/
theorem evaluate_plug_congr (C : Context) {v w : Value} (h : evaluate v = evaluate w) :
    evaluate (C.plug v) = evaluate (C.plug w) := by
  induction C with
  | hole => exact h
  | sexpr before inner after ih =>
    simp only [Context.plug, evaluate_sexpr, List.map_append, List.map_cons, ih]

/-- **Substitution under S-expressions.** What a value evaluates to depends on a part with only
S-expressions around it through the result of that part alone. So the part can be evaluated first,
and redundant brackets around it do not matter. -/
theorem evaluate_plug (C : Context) :
    (∀ v w, evaluate v = evaluate w → evaluate (C.plug v) = evaluate (C.plug w)) ∧
    (∀ v, evaluate (C.plug v) = evaluate (C.plug (evaluate v))) ∧
    ∀ v n, evaluate (C.plug v) = evaluate (C.plug (v.wrap n)) := by
  refine ⟨fun v w => evaluate_plug_congr C, fun v => evaluate_plug_congr C ?_,
    fun v n => evaluate_plug_congr C ?_⟩
  · exact (isNormal_evaluate v).evaluate_eq.symm
  · exact (evaluate_wrap v n).symm

/-! ## The cells of quoted lists -/

/-- Values that are the same but for the cells of quoted lists. Inside of a quoted list anything may
differ, and outside of all of them nothing does. -/
inductive Value.Similar : Value → Value → Prop
  | number (n : Number) : Similar (.number n) (.number n)
  | error (message : String) : Similar (.error message) (.error message)
  | symbol (name : String) : Similar (.symbol name) (.symbol name)
  | qexpr (cells others : List Value) : Similar (.qexpr cells) (.qexpr others)
  | sexpr {cells others : List Value} (hl : cells.length = others.length)
      (h : ∀ i (hi : i < cells.length) (hj : i < others.length), Similar cells[i] others[i]) :
      Similar (.sexpr cells) (.sexpr others)

open Value (emptyQuotes)

/-- **Similar values are the same once quoted lists are emptied.** -/
theorem similar_iff {v w : Value} : v.Similar w ↔ v.emptyQuotes = w.emptyQuotes := by
  constructor
  · intro h
    induction h with
    | number n => rfl
    | error message => rfl
    | symbol name => rfl
    | qexpr cells others => simp
    | sexpr hl _ ih =>
      simp only [Value.emptyQuotes_sexpr, Value.sexpr.injEq]
      refine List.ext_getElem (by simp [hl]) fun i hi hj => ?_
      simpa using ih i (by simpa using hi) (by simpa using hj)
  · intro h
    induction v generalizing w with
    | number n => cases w <;> simp_all [Value.Similar.number]
    | error message => cases w <;> simp_all [Value.Similar.error]
    | symbol name => cases w <;> simp_all [Value.Similar.symbol]
    | qexpr cells _ => cases w <;> simp_all [Value.Similar.qexpr]
    | sexpr cells ih =>
      cases w with
      | sexpr others =>
        simp only [Value.emptyQuotes_sexpr, Value.sexpr.injEq] at h
        have hl : cells.length = others.length := by simpa using congrArg List.length h
        refine .sexpr hl fun i hi hj => ih _ (List.getElem_mem hi) ?_
        simpa [hi, hj] using congrArg (fun results => results[i]?) h
      | number _ | error _ | symbol _ | qexpr _ => simp at h

/-- Similar results are equal, unless both are quoted lists. -/
theorem Value.Similar.eq_or_qexpr {v w : Value} (h : v.Similar w) (hv : v.IsNormal) :
    w = v ∨ ∃ cells others, v = .qexpr cells ∧ w = .qexpr others := by
  cases h with
  | number n => exact .inl rfl
  | error message => exact .inl rfl
  | symbol name => exact .inl rfl
  | qexpr cells others => exact .inr ⟨cells, others, rfl, rfl⟩
  | @sexpr cells others hl _ =>
    cases cells with
    | nil =>
      obtain rfl := List.eq_nil_of_length_eq_zero hl.symm
      exact .inl rfl
    | cons c cs => exact absurd rfl (hv c cs)

/-- **Quoted cells have no influence.** Similar values have similar results, and a result that is a
number, an error, a symbol or the empty S-expression is the same for both. -/
theorem evaluate_similar {v w : Value} (h : v.Similar w) :
    (evaluate v).Similar (evaluate w) ∧
    ((∃ n, evaluate v = .number n) ∨ (∃ message, evaluate v = .error message) ∨
      (∃ name, evaluate v = .symbol name) ∨ evaluate v = .sexpr [] → evaluate w = evaluate v) := by
  have hsimilar : (evaluate v).Similar (evaluate w) := by
    rw [similar_iff, ← evaluate_emptyQuotes, ← evaluate_emptyQuotes, similar_iff.1 h]
  refine ⟨hsimilar, fun hv => ?_⟩
  rcases hsimilar.eq_or_qexpr (isNormal_evaluate v) with he | ⟨cells, others, hq, -⟩
  · exact he
  · rw [hq] at hv
    rcases hv with ⟨n, he⟩ | ⟨message, he⟩ | ⟨name, he⟩ | he <;> cases he

/-- An error that is quoted does not poison: it is refused like any other quoted operand. -/
theorem evaluate_quoted_error :
    (Value.sexpr [.symbol "+", .sexpr [.qexpr [.error "quoted"]], .number 1]).Similar
      (.sexpr [.symbol "+", .sexpr [.qexpr []], .number 1]) ∧
    evaluate (.sexpr [.symbol "+", .sexpr [.qexpr [.error "quoted"]], .number 1]) =
      EvalError.nonNumberOperand.toValue ∧
    evaluate (.sexpr [.symbol "+", .sexpr [.qexpr []], .number 1]) =
      EvalError.nonNumberOperand.toValue := by
  have hs : (Value.sexpr [.symbol "+", .sexpr [.qexpr [.error "quoted"]], .number 1]).Similar
      (.sexpr [.symbol "+", .sexpr [.qexpr []], .number 1]) := by
    rw [similar_iff]
    simp
  have he : evaluate (.sexpr [.symbol "+", .sexpr [.qexpr [.error "quoted"]], .number 1]) =
      EvalError.nonNumberOperand.toValue := by
    rw [evaluate_sexpr]
    simp only [List.map_cons, List.map_nil, evaluate_singleton, evaluate_symbol, evaluate_qexpr,
      evaluate_number]
    rfl
  exact ⟨hs, he, ((evaluate_similar hs).2 (.inr (.inl ⟨_, he⟩))).trans he⟩

end Abacus
