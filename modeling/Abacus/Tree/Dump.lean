import Abacus.Tree

/-!
# Dumping syntax trees

A tree is dumped one node a line, parents before children, indented by depth.

Model of `write_tree` of a node (`dumpAt`) and of the display of a tree (`dump`).

Headline: `Tree.dumpAt_eq`, a dump is the line of a node and then the dumps of its children.
-/

namespace Abacus.Tree

variable {ι : Type}

/-- The line of a node at a depth: its tag, and its text if it has no children. -/
def dumpLine (depth : Nat) (t : Tree ι) : String :=
  let indented := String.ofList (List.replicate (2 * depth) ' ') ++ t.tag
  if t.children.isEmpty then indented ++ " '" ++ t.contents ++ "'\n" else indented ++ "\n"

/-- The dump of a node at a depth, with everything below it. -/
def dumpAt (depth : Nat) (t : Tree ι) : String :=
  String.join ((t.preorder depth).map fun p => dumpLine p.1 p.2)

/-- The dump of a tree. -/
def dump (t : Tree ι) : String := t.dumpAt 0

/-- **A dump is the line of the node and then the dumps of its children**, one level deeper. -/
theorem dumpAt_eq (depth : Nat) (t : Tree ι) :
    t.dumpAt depth = dumpLine depth t ++ String.join (t.children.map (dumpAt (depth + 1))) := by
  have h : ∀ ts : List (Tree ι),
      String.join ((ts.flatMap fun c => c.preorder (depth + 1)).map fun p => dumpLine p.1 p.2) =
        String.join (ts.map (dumpAt (depth + 1))) := by
    intro ts
    induction ts with
    | nil => rfl
    | cons c cs ih => simp [List.flatMap_cons, ih, dumpAt]
  rw [dumpAt, preorder_eq, List.map_cons, String.join_cons, h]

/-- Whether every tag of a tree is one of those that sources give rise to. -/
def hasKnownTags (t : Tree ι) : Bool :=
  (t.preorder 0).all fun p => Tag.all.contains p.2.tag

end Abacus.Tree
