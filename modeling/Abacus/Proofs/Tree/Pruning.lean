import Abacus.Proofs.Evaluation.Failure
import Abacus.Proofs.Tree.Slices

/-!
# What the reading of a tree depends on

Much of what a foreign tree may hold is of no account. `prune` takes away, at every level, the
brackets and anchors among the children together with everything below them, and all children of
numbers and symbols. What is left is read as a value of the same shape: each node that is kept gives
one cell at its own place, and the cells of a list are those of its kept children and no others. The
text of a list is never looked at, unless it makes the list a bracket.

Only children are taken away. A root that looks like a bracket or an anchor is read like any other
node, because there is no node above it that could leave it out.

Headlines:
* `getD_cells?_read`: the cells of a list are those of its kept children.
* `read_forget_prune`: a tree is read as what is left of it.
* `read_ignores_bookkeeping`: trees that are the same once pruned have the same value, and the value
  has one cell for each node that is left, at the same address.
-/

namespace Abacus

/-- Whether a node with the given tag is read from its text. All other nodes are lists. -/
def Tag.isAtom (tag : String) : Bool := mentions tag "number" || mentions tag "symbol"

theorem Tag.isAtom_eq_false_iff {tag : String} : isAtom tag = false ↔ ∃ b, role tag = .list b := by
  rw [isAtom, Bool.or_eq_false_iff]
  unfold role
  cases mentions tag "number" <;> cases mentions tag "symbol" <;> cases mentions tag "qexpr" <;> simp

namespace Tree

variable {ι κ : Type}

/-! ## Pruned trees -/

/-- Nodes that are left out as children: brackets, by their text, and anchors, by their whole tag. -/
def IsSkipped (t : Tree ι) : Prop :=
  t.contents = "(" ∨ t.contents = ")" ∨ t.contents = "\x7b" ∨ t.contents = "\x7d" ∨ t.tag = "regex"

instance (t : Tree ι) : Decidable t.IsSkipped :=
  inferInstanceAs (Decidable (_ ∨ _ ∨ _ ∨ _ ∨ _))

mutual

/-- A tree without the children that are skipped and without the children of atoms, at every level. -/
def prune : Tree ι → Tree ι
  | ⟨tag, contents, info, children⟩ =>
    ⟨tag, contents, info, if Tag.isAtom tag then [] else pruneAll children⟩

/-- Some children without those that are skipped; the others are pruned. -/
def pruneAll : List (Tree ι) → List (Tree ι)
  | [] => []
  | c :: cs => if c.IsSkipped then pruneAll cs else c.prune :: pruneAll cs

end

mutual

/-- A tree with nothing at its nodes but their tags and the texts of atoms. -/
def forget : Tree ι → Tree Unit
  | ⟨tag, contents, _, children⟩ =>
    ⟨tag, if Tag.isAtom tag then contents else "", (), forgetAll children⟩

/-- Trees with nothing at their nodes but their tags and the texts of atoms. -/
def forgetAll : List (Tree ι) → List (Tree Unit)
  | [] => []
  | c :: cs => c.forget :: forgetAll cs

end

/-- The node at an address. The empty address is the root, and an index goes on in that child. -/
def node? (t : Tree ι) : List Nat → Option (Tree ι)
  | [] => some t
  | i :: path => (t.children[i]?).bind fun c => c.node? path

/-! ## What is kept -/

theorem isBookkeeping_iff_isSkipped {t : Tree ι} : t.isBookkeeping = true ↔ t.IsSkipped := by
  simp [isBookkeeping, IsSkipped, Tag.regex, or_assoc]

theorem pruneAll_eq (cs : List (Tree ι)) :
    pruneAll cs = (cs.filter fun c => !c.isBookkeeping).map prune := by
  induction cs with
  | nil => rw [pruneAll, List.filter_nil, List.map_nil]
  | cons c cs ih =>
    rw [pruneAll, ih]
    by_cases hc : c.IsSkipped
    · rw [if_pos hc, List.filter_cons_of_neg]
      simp [isBookkeeping_iff_isSkipped.2 hc]
    · rw [if_neg hc, List.filter_cons_of_pos, List.map_cons]
      simpa [← isBookkeeping_iff_isSkipped] using hc

theorem forgetAll_eq (cs : List (Tree ι)) : forgetAll cs = cs.map forget := by
  induction cs with
  | nil => rw [forgetAll, List.map_nil]
  | cons c cs ih => rw [forgetAll, ih, List.map_cons]

theorem kept_eq (t : Tree ι) :
    t.kept = if Tag.isAtom t.tag then [] else t.children.filter fun c => !c.isBookkeeping := by
  cases ha : Tag.isAtom t.tag with
  | false =>
    obtain ⟨b, hb⟩ := Tag.isAtom_eq_false_iff.1 ha
    simp [kept, hb]
  | true =>
    unfold kept
    split
    · next b hb => simp [Tag.isAtom_eq_false_iff.2 ⟨b, hb⟩] at ha
    · rfl

theorem isBookkeeping_of_mem_kept {t c : Tree ι} (h : c ∈ t.kept) : c.isBookkeeping = false := by
  rw [kept_eq] at h
  split at h
  · cases h
  · simpa using (List.mem_filter.1 h).2

/-- **The children of a pruned tree are the ones that are kept.** -/
theorem prune_eq (t : Tree ι) : t.prune = ⟨t.tag, t.contents, t.info, t.kept.map prune⟩ := by
  cases t
  rw [prune, kept_eq, pruneAll_eq]
  split <;> rfl

theorem forget_eq (t : Tree ι) : t.forget =
    ⟨t.tag, if Tag.isAtom t.tag then t.contents else "", (), t.children.map forget⟩ := by
  cases t
  rw [forget, forgetAll_eq]

/-- A node whose kept children have the same values as those of another, with the same tag and, if it
is an atom, the same text, has the same value. -/
theorem read_congr {t : Tree ι} {u : Tree κ} (htag : t.tag = u.tag)
    (hcontents : Tag.isAtom t.tag = true → t.contents = u.contents)
    (hcells : t.kept.map read = u.kept.map read) : t.read = u.read := by
  rw [read_eq, read_eq u, hcells, readNode, readNode, ← htag]
  cases ha : Tag.isAtom t.tag with
  | true => rw [hcontents ha]
  | false =>
    obtain ⟨b, hb⟩ := Tag.isAtom_eq_false_iff.1 ha
    rw [hb]

/-- **The cells that a tree is read as are those of the kept children.** -/
theorem getD_cells?_read (t : Tree ι) : t.read.cells?.getD [] = t.kept.map read := by
  rw [read_eq, readNode, kept]
  cases Tag.role t.tag with
  | number =>
    dsimp only
    unfold readNumber
    split <;> rfl
  | symbol => rfl
  | list b =>
    dsimp only
    rw [Value.cells?_ofBracket, Option.getD_some]

/-! ## Reading what is left -/

/-- A map of trees that keeps tags, the texts of atoms and the children that count changes no value,
if no node becomes a bracket by it. -/
theorem read_of_children_eq {f : Tree ι → Tree κ} (htag : ∀ t, (f t).tag = t.tag)
    (hcontents : ∀ t : Tree ι, Tag.isAtom t.tag = true → (f t).contents = t.contents)
    (hkeeps : ∀ t : Tree ι, t.isBookkeeping = false → (f t).isBookkeeping = false)
    (hchildren : ∀ t, (f t).children = t.kept.map f) (t : Tree ι) : (f t).read = t.read := by
  have hkept : ∀ t, (f t).kept = t.kept.map f := by
    intro t
    rw [kept_eq, htag, hchildren]
    split
    · next ha => rw [kept_eq, if_pos ha, List.map_nil]
    · refine List.filter_eq_self.2 (List.forall_mem_map.2 fun c hc => ?_)
      rw [hkeeps c (isBookkeeping_of_mem_kept hc), Bool.not_false]
  induction t with
  | node t ih =>
    refine read_congr (htag t) (fun ha => hcontents t (htag t ▸ ha)) ?_
    rw [hkept, List.map_map]
    exact List.map_congr_left fun c hc => ih c (mem_children_of_mem_kept hc)

/-- **Pruning does not change what a tree is read as.** -/
theorem read_prune (t : Tree ι) : t.prune.read = t.read := by
  refine read_of_children_eq ?_ ?_ ?_ ?_ t <;> intro t <;> rw [prune_eq]
  · exact fun _ => rfl
  · exact id

/-- **A tree is read as what is left of it**, without the texts of lists. -/
theorem read_forget_prune (t : Tree ι) : t.prune.forget.read = t.read := by
  refine read_of_children_eq (f := fun t => t.prune.forget) ?_ ?_ ?_ ?_ t <;> intro t <;>
    rw [prune_eq, forget_eq]
  · exact fun ha => if_pos ha
  · -- the empty text that lists get is no bracket
    rw [← Bool.not_eq_true, ← Bool.not_eq_true, isBookkeeping_iff_isSkipped,
      isBookkeeping_iff_isSkipped]
    intro ht
    unfold IsSkipped at ht ⊢
    dsimp only
    split
    · exact ht
    · simp only [not_or] at ht
      simp [ht.2.2.2.2]
  · exact List.map_map

/-! ## Cells and kept children -/

/-- **The cell at an address is what the node there is read as**, and there are no other cells. -/
theorem node?_read (t : Tree ι) (path : List Nat) :
    t.read.node? path = (t.prune.node? path).map read := by
  induction path generalizing t with
  | nil => exact congrArg some (read_prune t).symm
  | cons i path ih =>
    rw [Value.node?, getD_cells?_read, node?, prune_eq, List.getElem?_map, List.getElem?_map]
    cases t.kept[i]? with
    | none => rfl
    | some c => exact ih c

/-- What is left of a tree is pruned, at every address. -/
theorem exists_prune_of_node? {t n : Tree ι} {path : List Nat} (h : t.prune.node? path = some n) :
    ∃ c : Tree ι, n = c.prune := by
  induction path generalizing t with
  | nil => exact ⟨t, (Option.some.inj h).symm⟩
  | cons i path ih =>
    rw [node?, prune_eq, List.getElem?_map] at h
    obtain ⟨c, hc, h⟩ := Option.bind_eq_some_iff.1 h
    obtain ⟨d, -, rfl⟩ := Option.map_eq_some_iff.1 hc
    exact ih h

/-- The cells of a list that is left are those of its children, one for each. -/
theorem cells?_read_prune {t : Tree ι} (h : Tag.isAtom t.tag = false) :
    t.prune.read.cells? = some (t.prune.children.map read) := by
  obtain ⟨b, hb⟩ := Tag.isAtom_eq_false_iff.1 h
  have hcells : (t.kept.map prune).map read = t.kept.map read := by
    rw [List.map_map]
    exact List.map_congr_left fun c _ => read_prune c
  rw [read_prune, prune_eq, hcells, read_eq, readNode, hb]
  exact Value.cells?_ofBracket b _

/-- **Bookkeeping is ignored, and all else counts once.** Trees that are the same once they are
pruned, but for the texts of lists, have the same value, whatever else their nodes carry. The value
has a cell where the pruned tree has a node, which is the value of that node, and nowhere else; so
every list has one cell for each kept child, in order. -/
theorem read_ignores_bookkeeping (t : Tree ι) (u : Tree κ) :
    (t.prune.forget = u.prune.forget → t.read = u.read) ∧
    ∀ path, t.read.node? path = (t.prune.node? path).map read ∧
      ∀ n, t.prune.node? path = some n → Tag.isAtom n.tag = false →
        n.read.cells? = some (n.children.map read) ∧ n.read.cellCount = n.children.length := by
  refine ⟨fun h => ?_, fun path => ⟨node?_read t path, fun n hn ha => ?_⟩⟩
  · rw [← read_forget_prune t, h, read_forget_prune]
  · obtain ⟨c, rfl⟩ := exists_prune_of_node? hn
    have hcells : c.prune.read.cells? = some (c.prune.children.map read) :=
      cells?_read_prune (by rw [← ha, prune_eq])
    refine ⟨hcells, ?_⟩
    rw [Value.cellCount, hcells, Option.getD_some, List.length_map]

/-- A list that looks like a bracket itself. Among its children are a number whose text is a bracket,
an anchor with a number below it, and a number with a number below it. -/
def cluttered : Tree Nat :=
  ⟨"list", "(", 0, [⟨"number", ")", 1, []⟩, ⟨"a number", "12", 2, [⟨"number", "3", 3, []⟩]⟩,
    ⟨"regex", "", 4, [⟨"number", "4", 5, []⟩]⟩, ⟨"qexpr", "text", 6, [⟨"symbol", "+", 7, []⟩]⟩]⟩

/-- What counts of `cluttered`. -/
def tidy : Tree Unit :=
  ⟨"list", "", (), [⟨"a number", "12", (), []⟩, ⟨"qexpr", "", (), [⟨"symbol", "+", (), []⟩]⟩]⟩

/-- Clutter does not count: the list has two cells, and the quoted list is the second one. -/
theorem read_cluttered :
    cluttered.prune.forget = tidy.prune.forget ∧ cluttered.read = tidy.read ∧
    cluttered.prune.node? [] = some cluttered.prune ∧ Tag.isAtom cluttered.prune.tag = false ∧
    cluttered.prune.read.cellCount = 2 := by
  have h : cluttered.prune.forget = tidy.prune.forget := rfl
  have ha : Tag.isAtom cluttered.prune.tag = false := by decide
  exact ⟨h, (read_ignores_bookkeeping cluttered tidy).1 h, rfl, ha,
    (((read_ignores_bookkeeping cluttered tidy).2 []).2 _ rfl ha).2⟩

end Tree

end Abacus
