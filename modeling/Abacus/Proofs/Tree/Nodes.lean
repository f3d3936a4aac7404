import Abacus.Proofs.Tree.Derivation

/-!
# Nodes of syntax trees

All nodes of a tree in preorder, and how facts about every node of a derived tree are proved: for
the leaf of each kind of token and for a group.

Headlines:
* `nodes_eq`: the nodes of a tree are its root and then the nodes of its children.
* `forall_nodes_of_derives`: what holds of leaves and groups holds of every node of derived trees.
* `Derives.exists_run`, `exists_run_of_mem_nodes`: every expression in derived trees, at any depth, is
  derived by a run of the tokens.
-/

namespace Abacus.Tree

variable {ι : Type}

/-- Induction on trees, where the children of a node are known to satisfy the claim. -/
@[elab_as_elim, induction_eliminator]
theorem induct {motive : Tree ι → Prop}
    (node : ∀ t : Tree ι, (∀ c ∈ t.children, motive c) → motive t) (t : Tree ι) : motive t :=
  match t with
  | ⟨tag, contents, info, children⟩ =>
    node ⟨tag, contents, info, children⟩ fun c _ => induct node c

/-- The nodes of a tree, parents before children and left before right. -/
def nodes (t : Tree ι) : List (Tree ι) := (t.preorder 0).map Prod.snd

theorem map_snd_preorder (t : Tree ι) (depth : Nat) : (t.preorder depth).map Prod.snd = t.nodes := by
  induction t generalizing depth with
  | node t ih =>
    have hchildren : t.children.map (fun c => (c.preorder (depth + 1)).map Prod.snd) =
        t.children.map (fun c => (c.preorder (0 + 1)).map Prod.snd) :=
      List.map_congr_left fun c hc => (ih c hc _).trans (ih c hc _).symm
    rw [nodes, preorder_eq, preorder_eq t 0, List.map_cons, List.map_cons, List.map_flatMap,
      List.map_flatMap, List.flatMap_def, hchildren, ← List.flatMap_def]

/-- **The nodes of a tree are its root and then the nodes of its children.** -/
theorem nodes_eq (t : Tree ι) : t.nodes = t :: t.children.flatMap nodes := by
  have hchildren : (fun c : Tree ι => (c.preorder (0 + 1)).map Prod.snd) = nodes :=
    funext fun c => map_snd_preorder c 1
  rw [nodes, preorder_eq, List.map_cons, List.map_flatMap, hchildren]

theorem mem_nodes_self (t : Tree ι) : t ∈ t.nodes := nodes_eq t ▸ List.mem_cons_self

theorem mem_nodes_of_mem_children {t c n : Tree ι} (hc : c ∈ t.children) (hn : n ∈ c.nodes) :
    n ∈ t.nodes := by
  rw [nodes_eq]
  exact List.mem_cons_of_mem t (List.mem_flatMap.2 ⟨c, hc, hn⟩)

/-- What holds of a root and of all nodes of its children holds of all its nodes. -/
theorem forall_mem_nodes_iff {P : Tree ι → Prop} {t : Tree ι} :
    (∀ n ∈ t.nodes, P n) ↔ P t ∧ ∀ c ∈ t.children, ∀ n ∈ c.nodes, P n := by
  rw [nodes_eq, List.forall_mem_cons, List.forall_mem_flatMap]

/-- A node without children is the only one of its tree. -/
theorem forall_mem_nodes_of_nil {P : Tree ι → Prop} {t : Tree ι} (hc : t.children = [])
    (ht : P t) : ∀ n ∈ t.nodes, P n := by
  rw [forall_mem_nodes_iff, hc]
  exact ⟨ht, fun c hc => by cases hc⟩

/-- **What holds of leaves and groups holds of every node of derived trees.** The tokens of the
leaves may be known to satisfy `Q`. -/
theorem forall_nodes_of_derives {P : ParseTree → Prop} {Q : Token → Prop}
    (hnumber : ∀ t, Q t → t.kind = .number → P (leaf Tag.number t))
    (hsymbol : ∀ t, Q t → t.kind = .symbol → P (leaf Tag.symbol t))
    (hopener : ∀ t b, Q t → t.kind = .opener b → P (leaf Tag.char t))
    (hcloser : ∀ t b, Q t → t.kind = .closer b → P (leaf Tag.char t))
    (hgroup : ∀ b o c inside items, Q o → Q c → o.kind = .opener b → c.kind = .closer b →
      (∀ t ∈ inside, Q t) → Derives inside items → P (ofGroup b o c items))
    {ts : List Token} {exprs : List ParseTree} (h : Derives ts exprs) (hQ : ∀ t ∈ ts, Q t) :
    ∀ x ∈ exprs, ∀ n ∈ x.nodes, P n := by
  have hleaf : ∀ {tag t}, P (leaf tag t) → ∀ n ∈ (leaf tag t).nodes, P n :=
    forall_mem_nodes_of_nil rfl
  induction h with
  | nil => intro x hx; cases hx
  | @number t ts exprs ht _ ih =>
    obtain ⟨hq, hqs⟩ := List.forall_mem_cons.1 hQ
    exact List.forall_mem_cons.2 ⟨hleaf (hnumber t hq ht), ih hqs⟩
  | @symbol t ts exprs ht _ ih =>
    obtain ⟨hq, hqs⟩ := List.forall_mem_cons.1 hQ
    exact List.forall_mem_cons.2 ⟨hleaf (hsymbol t hq ht), ih hqs⟩
  | @group b o c inside ts items exprs ho hc hi _ ihi ih =>
    obtain ⟨hqo, hqi, hqc, hqs⟩ := forall_mem_group.1 hQ
    refine List.forall_mem_cons.2 ⟨?_, ih hqs⟩
    refine forall_mem_nodes_iff.2 ⟨hgroup b o c inside items hqo hqc ho hc hqi hi, ?_⟩
    rw [ofGroup, List.cons_append, List.forall_mem_cons, List.forall_mem_append,
      List.forall_mem_singleton]
    exact ⟨hleaf (hopener o b hqo ho), ihi hqi, hleaf (hcloser c b hqc hc)⟩

/-- What holds of the spans of tokens and of merged spans holds of the span of every node. -/
theorem forall_info_of_derives {P : Span → Prop}
    (hmerge : ∀ s t : Span, P s → P t → P (s.merge t)) {ts : List Token} {exprs : List ParseTree}
    (h : Derives ts exprs) (hP : ∀ t ∈ ts, P t.span) : ∀ x ∈ exprs, ∀ n ∈ x.nodes, P n.info := by
  refine forall_nodes_of_derives (Q := fun t => P t.span) (fun _ ht _ => ht) (fun _ ht _ => ht)
    (fun _ _ ht _ => ht) (fun _ _ ht _ => ht) ?_ h hP
  intro b o c inside items ho hc _ _ _ _
  exact hmerge o.span c.span ho hc

/-! ## The tokens of a node -/

/-- Induction on derivations that takes one expression after the other, of whatever kind: first come
the tokens of it and then those of the rest. -/
theorem Derives.induct_run {motive : ∀ ts exprs, Derives ts exprs → Prop} (nil : motive [] [] .nil)
    (cons : ∀ us ts x exprs (hx : Derives us [x]) (h : Derives ts exprs), motive ts exprs h →
      motive (us ++ ts) (x :: exprs) (hx.append h)) {ts : List Token} {exprs : List ParseTree}
    (h : Derives ts exprs) : motive ts exprs h := by
  induction h with
  | nil => exact nil
  | number ht h ih => exact cons [_] _ _ _ (.number ht .nil) h ih
  | symbol ht h ih => exact cons [_] _ _ _ (.symbol ht .nil) h ih
  | @group b o c inside ts _ _ ho hc hi h _ ih =>
    have := cons (o :: inside ++ [c]) ts _ _ (.group ho hc hi .nil) h ih
    simp only [List.append_assoc, List.singleton_append] at this
    exact this

/-- Each derived tree is derived by some of the tokens, which stand together. -/
theorem Derives.exists_run {ts : List Token} {exprs : List ParseTree} (h : Derives ts exprs) :
    ∀ x ∈ exprs, ∃ us, us <:+: ts ∧ Derives us [x] := by
  induction h using Derives.induct_run with
  | nil => exact nofun
  | cons us ts x exprs hx _ ih =>
    refine List.forall_mem_cons.2 ⟨⟨us, (List.prefix_append us ts).isInfix, hx⟩, fun y hy => ?_⟩
    obtain ⟨vs, hvs, hd⟩ := ih y hy
    exact ⟨vs, hvs.trans (List.suffix_append us ts).isInfix, hd⟩

/-- A single expression is an atom or a group. -/
theorem Derives.singleton_cases {us : List Token} {n : ParseTree} (h : Derives us [n]) :
    (∃ t, us = [t] ∧ (n = leaf Tag.number t ∨ n = leaf Tag.symbol t)) ∨
      ∃ b o c inside items, us = o :: inside ++ [c] ∧ o.kind = .opener b ∧ c.kind = .closer b ∧
        Derives inside items ∧ n = ofGroup b o c items := by
  cases h with
  | @number t _ _ _ h =>
    cases h
    exact .inl ⟨t, rfl, .inl rfl⟩
  | @symbol t _ _ _ h =>
    cases h
    exact .inl ⟨t, rfl, .inr rfl⟩
  | @group b o c inside _ items _ ho hc hi h =>
    cases h
    exact .inr ⟨b, o, c, inside, items, rfl, ho, hc, hi, rfl⟩

/-- **Every node of derived trees is a bracket or derived by a run of the tokens.** -/
theorem exists_run_of_mem_nodes {ts : List Token} {exprs : List ParseTree} (h : Derives ts exprs)
    {x : ParseTree} (hx : x ∈ exprs) {n : ParseTree} (hn : n ∈ x.nodes) :
    (∃ t ∈ ts, n = leaf Tag.char t) ∨ ∃ us, us <:+: ts ∧ Derives us [n] := by
  induction x using induct generalizing ts exprs with
  | node x ih =>
    obtain ⟨us, hus, hd⟩ := h.exists_run x hx
    rw [nodes_eq, List.mem_cons, List.mem_flatMap] at hn
    rcases hn with rfl | ⟨child, hchild, hn⟩
    · exact .inr ⟨us, hus, hd⟩
    rcases hd.singleton_cases with ⟨t, -, rfl | rfl⟩ | ⟨b, o, c, inside, items, rfl, -, -, hi, rfl⟩
    · cases hchild
    · cases hchild
    have hbracket : ∀ t ∈ o :: inside ++ [c], n ∈ (leaf Tag.char t).nodes →
        ∃ t ∈ ts, n = leaf Tag.char t := fun t ht hn =>
      ⟨t, hus.mem ht, forall_mem_nodes_of_nil (P := (· = leaf Tag.char t)) rfl rfl n hn⟩
    have hinside : inside <:+: ts := List.IsInfix.trans ⟨[o], [c], rfl⟩ hus
    have hmem := hchild
    rw [ofGroup, List.cons_append, List.mem_cons, List.mem_append, List.mem_singleton] at hmem
    rcases hmem with rfl | hitem | rfl
    · exact .inl (hbracket o List.mem_cons_self hn)
    · rcases ih child hchild hi hitem hn with ⟨t, ht, rfl⟩ | ⟨us, hrun, hd⟩
      · exact .inl ⟨t, hinside.mem ht, rfl⟩
      · exact .inr ⟨us, hrun.trans hinside, hd⟩
    · exact .inl (hbracket c (by simp) hn)

end Abacus.Tree
