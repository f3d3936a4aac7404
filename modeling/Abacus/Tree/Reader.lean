import Abacus.Number
import Abacus.Tree.Parser
import Abacus.Value

/-!
# From syntax trees to values

Any tree can be read: its numbers, symbols and lists become values, and brackets and anchors are
left out. What else a tree carries with its nodes does not matter.

Model of `read`, `read_number` (`readNumber`), `is_bookkeeping` (`isBookkeeping`) and `read_source`
(`readSource`).

Out of scope: what is logged.

Headline: `Tree.read_eq`, a node is read from its tag, its text and the values of the children that
count.
-/

namespace Abacus.Tree

variable {ι : Type}

/-- Nodes that carry no meaning of their own: brackets, recognised by their text, and anchors. -/
def isBookkeeping (t : Tree ι) : Bool :=
  ["(", ")", "\x7b", "\x7d"].contains t.contents || t.tag == Tag.regex

/-- The message in place of a number that cannot be read. -/
def invalidNumber : String := "invalid number"

/-- The value of a numeral. -/
def readNumber (text : String) : Value :=
  match Number.ofText? text with
  | some n => .number n
  | none => .error invalidNumber

/-- The children whose values become cells. -/
def kept (t : Tree ι) : List (Tree ι) :=
  match Tag.role t.tag with
  | .list _ => t.children.filter fun c => !c.isBookkeeping
  | _ => []

/-- The value of a node, given the values of the children that count. -/
def readNode (t : Tree ι) (cells : List Value) : Value :=
  match Tag.role t.tag with
  | .number => readNumber t.contents
  | .symbol => .symbol t.contents
  | .list b => .ofBracket b cells

theorem mem_children_of_mem_kept {t c : Tree ι} (h : c ∈ t.kept) : c ∈ t.children := by
  unfold kept at h
  split at h
  · exact (List.mem_filter.1 h).1
  · cases h

/-- How trees are taken apart to be read. -/
def reading (ι : Type) : Branching (Tree ι) where
  parts := kept
  bounded := ⟨sizeOf, fun _ _ h => sizeOf_lt_of_mem (mem_children_of_mem_kept h)⟩

/-- The value of a tree. -/
def read (t : Tree ι) : Value := (reading ι).fold readNode t

/-- **A node is read from the values of the children that count.** -/
theorem read_eq (t : Tree ι) : t.read = t.readNode (t.kept.map read) :=
  (reading ι).fold_eq readNode t

/-- The value of a source: an S-expression of everything in it. -/
def readSource (source : String) : Except ParseError Value :=
  match parse source with
  | .ok tree => .ok tree.read
  | .error e => .error e

end Abacus.Tree
