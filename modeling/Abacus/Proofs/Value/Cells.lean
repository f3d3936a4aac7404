import Abacus.Value.Cells

/-!
# Lists under repeated access

A value on which cells are pushed and popped, any number of times and in any order. Some accesses are
refused, and the value goes on as it was. Whatever is tried, no cell is lost or made up: what was in
the list and what was pushed is still in the list or was popped, and the cells that are left stand in
the order in which they came.

Headlines:
* `performs_iff`: everything that an access can do, on the cells as a list.
* `conserved_run`: what every run keeps, from what every access keeps.
* `run_refines_list`: after any run, what the run has kept and what the next access will do.
-/

namespace Abacus.Value

/-- An access that may change a list. -/
inductive Access where
  | push (cell : Value)
  | pop (index : Nat)

/-- What comes of an access. -/
inductive Outcome where
  | pushed (cell : Value)
  | popped (cell : Value)
  | refused (e : CellError)

/-- The cell that was pushed. -/
def Outcome.pushed? : Outcome → Option Value
  | pushed cell => some cell
  | _ => none

/-- The cell that was popped. -/
def Outcome.popped? : Outcome → Option Value
  | popped cell => some cell
  | _ => none

/-- The value after an access, and what came of it. There is no other value than before if the access
is refused. -/
def perform (v : Value) : Access → Value × Outcome
  | .push cell =>
    match v.push cell with
    | .ok w => (w, .pushed cell)
    | .error e => (v, .refused e)
  | .pop index =>
    match v.pop index with
    | .ok (cell, w) => (w, .popped cell)
    | .error e => (v, .refused e)

/-- The value after some accesses, one after the other, and what came of each. -/
def run (v : Value) : List Access → Value × List Outcome
  | [] => (v, [])
  | a :: accesses =>
    let (w, o) := v.perform a
    let (last, os) := w.run accesses
    (last, o :: os)

/-- The cells of a value. A value that is no list has none. -/
def cellList (v : Value) : List Value := v.cells?.getD []

/-! ## One access -/

/-- What an access does, on the cells as a list. A value that is no list refuses everything. -/
inductive Performs (v : Value) : Access → Value → Outcome → Prop
  | notAList {a : Access} (h : v.cells? = none) : Performs v a v (.refused (.notAList v.kind))
  | pushed {cells : List Value} (cell : Value) (h : v.cells? = some cells) :
      Performs v (.push cell) (v.withCells (cells ++ [cell])) (.pushed cell)
  | popped {before after : List Value} {cell : Value} (h : v.cells? = some (before ++ cell :: after)) :
      Performs v (.pop before.length) (v.withCells (before ++ after)) (.popped cell)
  | outOfRange {cells : List Value} {index : Nat} (h : v.cells? = some cells)
      (hi : cells.length ≤ index) :
      Performs v (.pop index) v (.refused (.indexOutOfRange index cells.length))

theorem Performs.perform_eq {v w : Value} {a : Access} {o : Outcome} (h : Performs v a w o) :
    v.perform a = (w, o) := by
  cases h with
  | notAList h =>
    cases a with
    | push cell => rw [perform, push_eq_error_iff.2 ⟨h, rfl⟩]
    | pop index => rw [perform, pop_eq_error_iff.2 (.inl ⟨h, rfl⟩)]
  | pushed cell h => rw [perform, push_eq_ok_iff.2 ⟨_, h, rfl⟩]
  | @popped before after cell h =>
    have hpop : v.pop before.length = .ok (cell, v.withCells (before ++ after)) :=
      pop_eq_ok_iff.2 ⟨_, h, by simp, by simp [List.eraseIdx_append_of_length_le]⟩
    rw [perform, hpop]
  | outOfRange h hi => rw [perform, pop_eq_error_iff.2 (.inr ⟨_, h, hi, rfl⟩)]

theorem performs_perform (v : Value) (a : Access) :
    Performs v a (v.perform a).1 (v.perform a).2 := by
  cases hc : v.cells? with
  | none =>
    rw [(Performs.notAList hc).perform_eq]
    exact .notAList hc
  | some cells =>
    cases a with
    | push cell =>
      rw [(Performs.pushed cell hc).perform_eq]
      exact .pushed cell hc
    | pop index =>
      rcases Nat.lt_or_ge index cells.length with hi | hi
      · obtain ⟨before, cell, after, rfl, rfl⟩ : ∃ before cell after,
            cells = before ++ cell :: after ∧ index = before.length :=
          ⟨cells.take index, cells[index], cells.drop (index + 1), by simp, by simp; omega⟩
        rw [(Performs.popped hc).perform_eq]
        exact .popped hc
      · rw [(Performs.outOfRange hc hi).perform_eq]
        exact .outOfRange hc hi

/-- **Everything that an access can do.** -/
theorem performs_iff {v w : Value} {a : Access} {o : Outcome} :
    Performs v a w o ↔ v.perform a = (w, o) := by
  refine ⟨Performs.perform_eq, fun h => ?_⟩
  have := performs_perform v a
  rw [h] at this
  exact this

/-- Only values that are no lists are refused as such, and they refuse every access. -/
theorem Performs.refused_notAList_iff {v w : Value} {a : Access} {o : Outcome}
    (h : Performs v a w o) (kind : Kind) :
    o = .refused (.notAList kind) ↔ v.cells? = none ∧ kind = v.kind := by
  cases h with
  | notAList h => simp [h, eq_comm]
  | pushed _ h | popped h | outOfRange h _ => simp [h]

/-- An index is out of range exactly if it is not below the number of cells. -/
theorem Performs.refused_indexOutOfRange_iff {v w : Value} {a : Access} {o : Outcome}
    (h : Performs v a w o) (index count : Nat) :
    o = .refused (.indexOutOfRange index count) ↔
      a = .pop index ∧ v.cells?.map List.length = some count ∧ count ≤ index := by
  cases h with
  | notAList h => simp [h]
  | pushed _ h => simp
  | popped h =>
    simp [h]
    omega
  | outOfRange h hi =>
    simp [h]
    omega

theorem Performs.eq_of_refused {v w : Value} {a : Access} {e : CellError}
    (h : Performs v a w (.refused e)) : w = v := by
  cases h <;> rfl

/-! ## Runs -/

theorem run_append (v : Value) (accesses more : List Access) :
    v.run (accesses ++ more) = (((v.run accesses).1.run more).1,
      (v.run accesses).2 ++ ((v.run accesses).1.run more).2) := by
  induction accesses generalizing v with
  | nil => rfl
  | cons a accesses ih => simp only [List.cons_append, run, ih]

/-- What pushing and popping keep, from the value `v` to the value `w`. -/
structure Conserved (v w : Value) (os : List Outcome) : Prop where
  kind : w.kind = v.kind
  /-- What was there or was pushed is still there or was popped. -/
  perm : (v.cellList ++ os.filterMap Outcome.pushed?).Perm
    (w.cellList ++ os.filterMap Outcome.popped?)
  /-- What is still there stands in the order in which it came. -/
  sublist : w.cellList.Sublist (v.cellList ++ os.filterMap Outcome.pushed?)

theorem Conserved.refl (v : Value) : Conserved v v [] :=
  ⟨rfl, by simp, by simp⟩

theorem Conserved.trans {u v w : Value} {os ps : List Outcome} (h : Conserved u v os)
    (h' : Conserved v w ps) : Conserved u w (os ++ ps) where
  kind := h'.kind.trans h.kind
  perm := by
    rw [List.filterMap_append, List.filterMap_append, ← List.append_assoc]
    refine (h.perm.append_right _).trans ?_
    -- the cells that are popped first give way to those that are pushed later
    rw [List.append_assoc]
    refine (List.perm_append_comm.append_left _).trans ?_
    rw [← List.append_assoc]
    refine (h'.perm.append_right _).trans ?_
    rw [List.append_assoc]
    exact List.perm_append_comm.append_left _
  sublist := by
    rw [List.filterMap_append, ← List.append_assoc]
    exact h'.sublist.trans (h.sublist.append (.refl _))

theorem cellList_of_cells? {v : Value} {cells : List Value} (h : v.cells? = some cells) :
    v.cellList = cells := by
  rw [cellList, h, Option.getD_some]

theorem cellList_withCells {v : Value} {old : List Value} (h : v.cells? = some old)
    (cells : List Value) : (v.withCells cells).cellList = cells :=
  cellList_of_cells? (cells?_withCells h cells)

/-- **An access loses no cell and makes none up.** -/
theorem Performs.conserved {v w : Value} {a : Access} {o : Outcome} (h : Performs v a w o) :
    Conserved v w [o] := by
  cases h with
  | notAList h | outOfRange h _ => exact ⟨rfl, .refl _, List.sublist_append_left _ _⟩
  | @pushed cells cell h =>
    have hcells : (v.withCells (cells ++ [cell])).cellList = v.cellList ++ [cell] := by
      rw [cellList_withCells h, cellList_of_cells? h]
    refine ⟨kind_withCells v _, ?_, ?_⟩
    · change (v.cellList ++ [cell]).Perm (_ ++ [])
      rw [List.append_nil, hcells]
    · exact hcells ▸ List.Sublist.refl _
  | @popped before after cell h =>
    refine ⟨kind_withCells v _, ?_, ?_⟩
    · change (v.cellList ++ []).Perm (_ ++ [cell])
      rw [List.append_nil, cellList_withCells h, cellList_of_cells? h]
      exact List.perm_middle.trans (List.perm_append_singleton cell (before ++ after)).symm
    · change List.Sublist _ (v.cellList ++ [])
      rw [List.append_nil, cellList_withCells h, cellList_of_cells? h]
      exact (List.sublist_cons_self cell after).append_left before

/-- **Neither does a run.** -/
theorem conserved_run (v : Value) (accesses : List Access) :
    Conserved v (v.run accesses).1 (v.run accesses).2 := by
  induction accesses generalizing v with
  | nil => exact .refl v
  | cons a accesses ih => exact (performs_perform v a).conserved.trans (ih _)

theorem take_eq_map_pop (v : Value) (index : Nat) : v.take index = (v.pop index).map Prod.fst := by
  unfold take
  split <;> simp [*, Except.map]

/-- **A run of accesses is a run on a list.** After any accesses the value is of the same kind, its
cells and the popped ones are the cells that it had and the pushed ones, and its cells stand in the
order in which they came. The next access fails on a value that is no list and where an index is not
below the number of cells, and nowhere else. If it fails the value stays as it is, and otherwise a cell
is appended, or taken out from between the other ones. Taking a cell gives what popping it gives. -/
theorem run_refines_list {v w : Value} {accesses : List Access} {os : List Outcome}
    (h : v.run accesses = (w, os)) :
    Conserved v w os ∧
    (∀ a next o, w.perform a = (next, o) →
      v.run (accesses ++ [a]) = (next, os ++ [o]) ∧ Performs w a next o ∧
      (∀ kind, o = .refused (.notAList kind) ↔ w.cells? = none ∧ kind = w.kind) ∧
      (∀ index count, o = .refused (.indexOutOfRange index count) ↔
        a = .pop index ∧ w.cells?.map List.length = some count ∧ count ≤ index) ∧
      ∀ e, o = .refused e → next = w) ∧
    ∀ index, w.take index = (w.pop index).map Prod.fst := by
  refine ⟨?_, fun a next o ha => ?_, w.take_eq_map_pop⟩
  · have := conserved_run v accesses
    rw [h] at this
    exact this
  · have hp : Performs w a next o := performs_iff.2 ha
    refine ⟨?_, hp, hp.refused_notAList_iff, hp.refused_indexOutOfRange_iff, ?_⟩
    · rw [run_append, h]
      simp only [run, ha]
    · rintro e rfl
      exact hp.eq_of_refused

/-- A list that is emptied, with an index past the end on the way and another one afterwards. -/
theorem run_emptied_list :
    (Value.qexpr [.number 1]).run [.pop 1, .push (.symbol "x"), .pop 0, .pop 0] =
      (.qexpr [], [.refused (.indexOutOfRange 1 1), .pushed (.symbol "x"), .popped (.number 1),
        .popped (.symbol "x")]) ∧
    (Value.qexpr []).perform (.pop 0) = (.qexpr [], .refused (.indexOutOfRange 0 0)) ∧
    (Value.qexpr [.number 1]).run [.pop 1, .push (.symbol "x"), .pop 0, .pop 0, .pop 0] =
      (.qexpr [], [.refused (.indexOutOfRange 1 1), .pushed (.symbol "x"), .popped (.number 1),
        .popped (.symbol "x"), .refused (.indexOutOfRange 0 0)]) := by
  have h : (Value.qexpr [.number 1]).run [.pop 1, .push (.symbol "x"), .pop 0, .pop 0] =
      (.qexpr [], [.refused (.indexOutOfRange 1 1), .pushed (.symbol "x"), .popped (.number 1),
        .popped (.symbol "x")]) := rfl
  have hpop : (Value.qexpr []).perform (.pop 0) = (.qexpr [], .refused (.indexOutOfRange 0 0)) := rfl
  exact ⟨h, hpop, ((run_refines_list h).2.1 _ _ _ hpop).1⟩

end Abacus.Value
