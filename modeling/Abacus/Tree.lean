import Abacus.Bracket
import Abacus.Span
import Abacus.Traversal

/-!
# Syntax trees

A tree whose nodes carry a tag, the text that they stand for and some further information, such as
the place in a source. Tags are paths of grammar rules, separated by bars; what a node means is
decided by the words that occur in its tag, so trees with longer paths are understood as well.

Model of `SyntaxNode` and of `AstNode`, whose further information is its `span`, and of the tags
that nodes are made with.

Headlines: `Tree.preorder_eq`, the preorder of a node is the node and then the preorders of its
children; `Tag.role_eq_number_iff`, a word that decides before all others what a node means.
-/

namespace Abacus

/-- A tree of tagged nodes. -/
structure Tree (ι : Type) where
  /-- The grammar rules behind the node. -/
  tag : String
  /-- The text of a node that has no children. -/
  contents : String
  info : ι
  children : List (Tree ι)

/-- A tree that knows the place of each node in its source. -/
abbrev ParseTree := Tree Span

/-! ## Tags -/

namespace Tag

/-- A whole source. -/
def root : String := ">"

/-- A number. -/
def number : String := "expr|number|regex"

/-- An operator symbol. -/
def symbol : String := "expr|symbol|char"

/-- A list between round brackets. -/
def sexpr : String := "expr|sexpr|>"

/-- A list between curly brackets. -/
def qexpr : String := "expr|qexpr|>"

/-- A bracket. -/
def char : String := "char"

/-- The start or the end of a source. -/
def regex : String := "regex"

/-- Every tag of a tree that comes from a source. -/
def all : List String := [root, number, symbol, sexpr, qexpr, char, regex]

/-- The tag of a list with the given brackets. -/
def list : Bracket → String
  | .round => sexpr
  | .curly => qexpr

/-- Whether `word` occurs somewhere in `text`. -/
def occurs (word : List Char) : List Char → Bool
  | [] => word.isEmpty
  | c :: cs => word.isPrefixOf (c :: cs) || occurs word cs

/-- Whether a word occurs in a tag. -/
def mentions (tag word : String) : Bool := occurs word.toList tag.toList

/-- What a node stands for. -/
inductive Role where
  | number
  | symbol
  | list (bracket : Bracket)
  deriving DecidableEq, Repr

/-- What a node with the given tag stands for. The first word found decides, and a node whose tag
has none of the words is a list between round brackets. -/
def role (tag : String) : Role :=
  if mentions tag "number" then .number
  else if mentions tag "symbol" then .symbol
  else if mentions tag "qexpr" then .list .curly
  else .list .round

theorem occurs_iff {word text : List Char} : occurs word text = true ↔ word <:+: text := by
  induction text with
  | nil => simp [occurs]
  | cons c cs ih =>
    simp [occurs, ih, List.infix_cons_iff]

theorem mentions_iff {tag word : String} : mentions tag word = true ↔ word.toList <:+: tag.toList :=
  occurs_iff

theorem role_eq_number_iff {tag : String} : role tag = .number ↔ mentions tag "number" := by
  unfold role
  split
  · simp [*]
  · split
    · simp [*]
    · split <;> simp [*]

theorem role_number : role number = .number := by decide

theorem role_symbol : role symbol = .symbol := by decide

theorem role_list (b : Bracket) : role (list b) = .list b := by
  cases b <;> decide

theorem role_root : role root = .list .round := by decide

end Tag

/-! ## Preorder -/

namespace Tree

variable {ι : Type}

theorem sizeOf_lt_of_mem {t c : Tree ι} (h : c ∈ t.children) : sizeOf c < sizeOf t := by
  have := List.sizeOf_lt_of_mem h
  cases t
  simp only [mk.sizeOf_spec] at *
  omega

/-- The layout of a tree as its nodes with their depths, parents before children. -/
def preorderLayout (ι : Type) : Layout (Nat × Tree ι) (Nat × Tree ι) where
  pieces := fun (depth, t) => .inl (depth, t) :: t.children.map fun c => .inr (depth + 1, c)
  bounded := by
    refine ⟨fun p => sizeOf p.2, fun p q h => ?_⟩
    obtain ⟨c, hc, rfl⟩ : ∃ c ∈ p.2.children, (p.1 + 1, c) = q := by simpa using h
    exact sizeOf_lt_of_mem hc

/-- The nodes of a tree with their depths, parents before children and left before right. The node
itself is at the given depth. -/
def preorder (t : Tree ι) (depth : Nat) : List (Nat × Tree ι) :=
  (preorderLayout ι).list (depth, t)

/-- **The preorder of a node is the node and then the preorders of its children**, one level
deeper. -/
theorem preorder_eq (t : Tree ι) (depth : Nat) :
    t.preorder depth = (depth, t) :: t.children.flatMap fun c => c.preorder (depth + 1) := by
  rw [preorder, Layout.list_eq]
  simp [preorderLayout, preorder, List.flatMap_map]

end Tree

end Abacus
