/-!
# Walking deep trees with an explicit stack

Expressions may be nested tens of thousands of levels deep, so no function that is run calls itself
once per level. A tree is given by the parts of a node, each of which is smaller than the node by
some size, and it is walked in one loop that keeps the open nodes on a list.

Takes the place of `ensure_sufficient_stack`, which gives a recursion more stack where it runs
short.

Out of scope: how much memory a walk takes, and `drop`, which takes a deep tree apart in a loop.

Headlines:
* `Branching.fold_eq`: a bottom-up fold combines the folds of the parts.
* `Layout.list_eq`: what a layout emits is its pieces in order, each part replaced by what it
  emits.
-/

namespace Abacus

/-- A way to take things apart into smaller things of the same type. -/
structure Branching (σ : Type) where
  /-- The parts of a node, from left to right. -/
  parts : σ → List σ
  /-- By some measure every part is smaller than the whole. -/
  bounded : ∃ size : σ → Nat, ∀ x, ∀ y ∈ parts x, size y < size x

namespace Branching

variable {σ α : Type} (B : Branching σ)

/-- A measure by which every part is smaller than the whole. -/
noncomputable def size : σ → Nat := Classical.choose B.bounded

theorem size_lt_of_mem {x y : σ} (h : y ∈ B.parts x) : B.size y < B.size x :=
  Classical.choose_spec B.bounded x y h

/-! ## One call per level -/

/-- Combine a node with the results of its parts, bottom up, by one call per level. -/
def foldByLevel (combine : σ → List α → α) (x : σ) : α :=
  combine x ((B.parts x).attach.map fun y => foldByLevel combine y.1)
termination_by B.size x
decreasing_by exact B.size_lt_of_mem y.2

theorem foldByLevel_eq (combine : σ → List α → α) (x : σ) :
    B.foldByLevel combine x = combine x ((B.parts x).map (B.foldByLevel combine)) := by
  rw [foldByLevel]
  simp

/-- A node, its parts, the parts of these and so on. -/
def nodes : σ → List σ := B.foldByLevel fun x below => x :: below.flatten

theorem nodes_eq (x : σ) : B.nodes x = x :: (B.parts x).flatMap B.nodes :=
  B.foldByLevel_eq _ x

/-! ## Bottom-up folds -/

/-- An open node: the results of its finished parts, last one first, and the parts to come. -/
structure Frame (σ α : Type) where
  node : σ
  done : List α
  todo : List σ

/-- The result of a node whose parts gave the results `done`, last one first. -/
def close (combine : σ → List α → α) (node : σ) (done : List α) : α :=
  combine node done.reverse

/-- Finish the node on top of the stack, whose results so far are `done` and whose parts to come
are `todo`, and then every open node below it. -/
def walk (combine : σ → List α → α) (node : σ) (done : List α) (todo : List σ)
    (stack : List (Frame σ α)) : α :=
  match todo, stack with
  | x :: todo, stack => walk combine x [] (B.parts x) (⟨node, done, todo⟩ :: stack)
  | [], [] => close combine node done
  | [], f :: stack => walk combine f.node (close combine node done :: f.done) f.todo stack
-- A part that is opened leaves the nodes to come, for one frame more; a closed node leaves its frame.
termination_by 2 * ((todo ++ stack.flatMap Frame.todo).flatMap B.nodes).length + stack.length
decreasing_by
  · simp only [List.cons_append, List.flatMap_cons, List.flatMap_append, List.length_cons,
      List.length_append, B.nodes_eq x]
    omega
  · simp only [List.nil_append, List.flatMap_cons, List.length_cons]
    omega

/-- Combine a node with the results of its parts, bottom up. -/
def fold (combine : σ → List α → α) (x : σ) : α :=
  B.walk combine x [] (B.parts x) []

/-- Hand a finished result down to the open nodes. -/
private def unwind (combine : σ → List α → α) : List (Frame σ α) → α → α
  | [], a => a
  | f :: fs, a => unwind combine fs
      (combine f.node (f.done.reverse ++ a :: f.todo.map (B.foldByLevel combine)))

private theorem walk_eq_unwind (combine : σ → List α → α) (node : σ) (done : List α)
    (todo : List σ) (stack : List (Frame σ α)) :
    B.walk combine node done todo stack =
      B.unwind combine stack
        (combine node (done.reverse ++ todo.map (B.foldByLevel combine))) := by
  fun_induction B.walk combine node done todo stack with
  | case1 node done x todo stack ih =>
    rw [ih]
    simp only [unwind, List.reverse_nil, List.nil_append, List.map_cons]
    rw [foldByLevel_eq B combine x]
  | case2 node done => simp [unwind, close]
  | case3 node done f stack ih =>
    rw [ih]
    simp [unwind, close]

private theorem fold_eq_foldByLevel (combine : σ → List α → α) (x : σ) :
    B.fold combine x = B.foldByLevel combine x := by
  rw [fold, walk_eq_unwind, foldByLevel_eq]
  rfl

/-- **The fold of a node combines the folds of its parts.** -/
theorem fold_eq (combine : σ → List α → α) (x : σ) :
    B.fold combine x = combine x ((B.parts x).map (B.fold combine)) := by
  have h : B.fold combine = B.foldByLevel combine :=
    funext fun y => B.fold_eq_foldByLevel combine y
  rw [h]
  exact B.foldByLevel_eq combine x

end Branching

/-- A way to lay things out: each is a sequence of finished items and smaller things. -/
structure Layout (σ τ : Type) where
  /-- The pieces of a thing, from left to right. -/
  pieces : σ → List (τ ⊕ σ)
  /-- By some measure every thing among the pieces is smaller than the whole. -/
  bounded : ∃ size : σ → Nat, ∀ x y, .inr y ∈ pieces x → size y < size x

namespace Layout

variable {σ τ : Type} (L : Layout σ τ)

/-- The things among some pieces. -/
def things (ps : List (τ ⊕ σ)) : List σ := ps.filterMap Sum.getRight?

/-- The way to take things apart in which the finished items are left out. -/
def branching : Branching σ where
  parts x := things (L.pieces x)
  bounded := by
    obtain ⟨size, h⟩ := L.bounded
    exact ⟨size, fun x y hy => h x y (by simpa [things] using hy)⟩

/-! ## Emitting items in order -/

/-- Emit a list of pieces after the items of `acc`, which are kept last one first. -/
def emit : List (τ ⊕ σ) → List τ → List τ
  | [], acc => acc.reverse
  | .inl t :: ps, acc => emit ps (t :: acc)
  | .inr x :: ps, acc => emit (L.pieces x ++ ps) acc
termination_by ps => (((things ps).flatMap L.branching.nodes).length, ps.length)
decreasing_by
  · exact Prod.Lex.right _ (by simp)
  · have h : L.branching.nodes x = x :: (things (L.pieces x)).flatMap L.branching.nodes :=
      L.branching.nodes_eq x
    apply Prod.Lex.left
    simp only [things, List.filterMap_cons, Sum.getRight?_inr, List.filterMap_append,
      List.flatMap_cons, List.flatMap_append, List.length_append] at h ⊢
    rw [h, List.length_cons]
    omega

/-- Everything that `x` emits. -/
def list (x : σ) : List τ := L.emit [.inr x] []

private theorem emit_acc (ps : List (τ ⊕ σ)) (acc : List τ) :
    ∀ us, L.emit ps us = us.reverse ++ L.emit ps [] := by
  induction ps, acc using Layout.emit.induct L with
  | case1 acc => simp [emit]
  | case2 t ps acc ih =>
    intro us
    rw [emit, emit, ih (t :: us), ih [t]]
    simp
  | case3 x ps acc ih =>
    intro us
    rw [emit, emit]
    exact ih us

private theorem emit_append (ps : List (τ ⊕ σ)) (acc : List τ) (qs : List (τ ⊕ σ)) :
    L.emit (ps ++ qs) [] = L.emit ps [] ++ L.emit qs [] := by
  induction ps, acc using Layout.emit.induct L with
  | case1 acc => simp [emit]
  | case2 t ps acc ih =>
    rw [List.cons_append, emit, emit, emit_acc L (ps ++ qs) [] [t], emit_acc L ps [] [t], ih]
    simp
  | case3 x ps acc ih =>
    rw [List.cons_append, emit, emit, ← List.append_assoc, ih]

private theorem emit_eq_flatMap (ps : List (τ ⊕ σ)) :
    L.emit ps [] = ps.flatMap (Sum.elim (fun t => [t]) L.list) := by
  induction ps with
  | nil => simp [emit]
  | cons p ps ih =>
    have h := emit_append L [p] [] ps
    rw [List.singleton_append, ih] at h
    rw [h, List.flatMap_cons]
    congr 1
    cases p with
    | inl t => simp [emit]
    | inr x => rfl

/-- **What a thing emits is its pieces in order**, each smaller thing replaced by what it emits. -/
theorem list_eq (x : σ) : L.list x = (L.pieces x).flatMap (Sum.elim (fun t => [t]) L.list) := by
  rw [list, emit, List.append_nil, emit_eq_flatMap]

end Layout

end Abacus
