import Abacus.Proofs.Token.Segments
import Abacus.Proofs.Tree.Denotation

/-!
# The shape of syntax trees

What a syntax tree has to do with its source. Its leaves are the tokens of the source in their
order, between the two anchors; a list reaches from its opening bracket to its closing one; and the
spans of siblings stand one after the other inside the span of their parent.

Every node is derived by a run of the tokens, and these stand in order. So the places of a node are
those of the first and the last token of its run.

Headlines:
* `leaves_of_derives`: the leaves of derived trees are the tokens.
* `info_of_derives`: an expression reaches from the first of its tokens to the last one.
* `inOrder_of_derives`: derived trees stand in the order of their tokens.
* `parse_wellFormed`: the tree of every source is well formed.
-/

namespace Abacus

/-- The tag of the leaf of a token. -/
def Token.Kind.tag : Kind → String
  | number => Tag.number
  | symbol => Tag.symbol
  | opener _ | closer _ => Tag.char

namespace Tree

open Token (Arranged)

/-! ## Leaves -/

section Leaves

variable {ι : Type}

/-- The nodes without children, from left to right. -/
def leaves (t : Tree ι) : List (Tree ι) := t.nodes.filter fun n => n.children.isEmpty

theorem nodes_of_nil {t : Tree ι} (h : t.children = []) : t.nodes = [t] := by
  rw [nodes_eq, h, List.flatMap_nil]

theorem leaves_of_nil {t : Tree ι} (h : t.children = []) : t.leaves = [t] := by
  rw [leaves, nodes_of_nil h, List.filter_cons_of_pos (by rw [h]; rfl), List.filter_nil]

theorem leaves_of_ne_nil {t : Tree ι} (h : t.children ≠ []) :
    t.leaves = t.children.flatMap leaves := by
  rw [leaves, nodes_eq, List.filter_cons_of_neg (by rw [List.isEmpty_iff]; exact h),
    List.filter_flatMap]
  rfl

/-- The leaves of a node whose first and last child have no children. -/
theorem leaves_between {t first last : Tree ι} {items : List (Tree ι)}
    (ht : t.children = first :: items ++ [last]) (hf : first.children = [])
    (hl : last.children = []) : t.leaves = first :: items.flatMap leaves ++ [last] := by
  rw [leaves_of_ne_nil (by rw [ht]; exact List.cons_ne_nil _ _), ht, List.cons_append,
    List.flatMap_cons, List.flatMap_append, List.flatMap_singleton, leaves_of_nil hf,
    leaves_of_nil hl]
  rfl

end Leaves

/-- The leaf of a token. -/
def ofToken (t : Token) : ParseTree := leaf t.kind.tag t

theorem ofToken_of_kind {t : Token} {kind : Token.Kind} (h : t.kind = kind) :
    ofToken t = leaf kind.tag t := by
  rw [ofToken, h]

/-- **The leaves of derived trees are the tokens**, each once. -/
theorem leaves_of_derives {ts : List Token} {exprs : List ParseTree} (h : Derives ts exprs) :
    exprs.flatMap leaves = ts.map ofToken := by
  induction h with
  | nil => rfl
  | number ht _ ih | symbol ht _ ih =>
    rw [List.flatMap_cons, leaves_of_nil rfl, ih, List.map_cons, ofToken_of_kind ht]
    rfl
  | @group b o c inside ts items exprs ho hc _ _ ihi ih =>
    rw [List.flatMap_cons, leaves_between rfl rfl rfl, ihi, ih, List.map_append, List.map_cons,
      List.map_cons, ofToken_of_kind ho, ofToken_of_kind hc, List.append_assoc]
    rfl

/-! ## Places -/

theorem info_ofGroup {b : Bracket} {o c : Token} {inside : List Token} {items : List ParseTree}
    (ha : Arranged (o :: inside ++ [c])) :
    (ofGroup b o c items).info = ⟨o.span.start, c.span.stop⟩ := by
  have hpair : [o, c].Sublist (o :: inside ++ [c]) :=
    (List.sublist_append_right inside [c]).cons_cons o
  exact Span.merge_of_inOrder (ha.sublist hpair).inOrder

/-- **An expression reaches from the first of its tokens to the last one.** -/
theorem info_of_derives {us : List Token} {n : ParseTree} (h : Derives us [n])
    (ha : Arranged us) :
    ∃ first ∈ us.head?, ∃ last ∈ us.getLast?, n.info = ⟨first.span.start, last.span.stop⟩ := by
  rcases h.singleton_cases with ⟨t, rfl, rfl | rfl⟩ | ⟨b, o, c, inside, items, rfl, -, -, -, rfl⟩
  · exact ⟨t, rfl, t, rfl, rfl⟩
  · exact ⟨t, rfl, t, rfl, rfl⟩
  · exact ⟨o, rfl, c, List.getLast?_concat, info_ofGroup ha⟩

theorem endsAmong_of_derives {ts : List Token} {exprs : List ParseTree} (h : Derives ts exprs)
    (ha : Arranged ts) : Span.EndsAmong (exprs.map info) (ts.map Token.span) := by
  refine List.forall_mem_map.2 fun x hx => ?_
  obtain ⟨us, hus, hd⟩ := h.exists_run x hx
  obtain ⟨first, hfirst, last, hlast, he⟩ := info_of_derives hd (ha.sublist hus.sublist)
  have hmem : ∀ t ∈ us, t.span ∈ ts.map Token.span := fun t ht =>
    List.mem_map_of_mem (hus.mem ht)
  rw [he]
  exact ⟨⟨first.span, hmem first (List.mem_of_mem_head? hfirst), rfl⟩,
    ⟨last.span, hmem last (List.mem_of_mem_getLast? hlast), rfl⟩⟩

/-- Nodes of derived trees are not empty. -/
theorem start_lt_stop_of_derives {ts : List Token} {exprs : List ParseTree} (h : Derives ts exprs)
    (ha : Arranged ts) : ∀ x ∈ exprs, ∀ n ∈ x.nodes, n.info.start < n.info.stop := by
  refine forall_info_of_derives (P := fun s => s.start < s.stop) (fun s t hs ht => ?_) h
    ha.start_lt_stop
  rw [UInt32.lt_iff_toNat_lt] at hs ht ⊢
  rw [Span.toNat_start_merge, Span.toNat_stop_merge]
  omega

/-- **Derived trees stand in the order of their tokens.** -/
theorem inOrder_of_derives {ts : List Token} {exprs : List ParseTree} (h : Derives ts exprs)
    (ha : Arranged ts) : Span.InOrder (exprs.map info) := by
  induction h using Derives.induct_run with
  | nil => exact Span.inOrder_nil
  | cons us ts x exprs hx h ih =>
    have hus := ha.sublist (List.sublist_append_left us ts)
    have hts := ha.sublist (List.sublist_append_right us ts)
    have ho := ha.inOrder
    rw [List.map_append, Span.inOrder_append_iff] at ho
    obtain ⟨-, -, hbefore⟩ := ho
    have hlt := start_lt_stop_of_derives hx hus x List.mem_cons_self x (mem_nodes_self x)
    obtain ⟨-, u, hu, hstop⟩ := endsAmong_of_derives hx hus x.info List.mem_cons_self
    -- `x` ends where one of its tokens does, and the others start where later tokens do
    refine Span.inOrder_cons_iff.2 ⟨UInt32.le_of_lt hlt, fun s hs => ?_, ih hts⟩
    obtain ⟨⟨t, ht, hstart⟩, -⟩ := endsAmong_of_derives h hts s hs
    rw [hstop, hstart]
    exact hbefore u hu t ht

/-! ## Nodes and their children -/

/-- The children of a node stand one after the other, and inside of it. -/
structure Nested (n : ParseTree) : Prop where
  inOrder : Span.InOrder (n.children.map info)
  within : ∀ c ∈ n.children, n.info.start ≤ c.info.start ∧ c.info.stop ≤ n.info.stop

theorem nested_of_nil {n : ParseTree} (h : n.children = []) : Nested n where
  inOrder := by
    rw [h]
    exact Span.inOrder_nil
  within := by
    rw [h]
    exact nofun

/-- A node is nested if it reaches from its first child to its last one and all of them are in
order. -/
theorem nested_between {n first last : ParseTree} {items : List ParseTree}
    (hn : n.children = first :: items ++ [last])
    (hinfo : n.info = ⟨first.info.start, last.info.stop⟩)
    (ho : Span.InOrder ([first.info] ++ items.map info ++ [last.info])) : Nested n := by
  have hmap : n.children.map info = [first.info] ++ items.map info ++ [last.info] := by
    rw [hn, List.map_append]
    rfl
  refine ⟨hmap ▸ ho, fun c hc => ?_⟩
  have hmem : c.info ∈ [first.info] ++ items.map info ++ [last.info] :=
    hmap ▸ List.mem_map_of_mem hc
  rw [hinfo]
  exact ⟨ho.start_le_of_cons c.info hmem, ho.stop_le_of_concat c.info hmem⟩

theorem nested_ofGroup {b : Bracket} {o c : Token} {inside : List Token} {items : List ParseTree}
    (hi : Derives inside items) (ha : Arranged (o :: inside ++ [c])) :
    Nested (ofGroup b o c items) := by
  have hinside : inside.Sublist (o :: inside ++ [c]) :=
    (List.sublist_append_left inside [c]).cons o
  have hai := ha.sublist hinside
  have ho := ha.inOrder
  rw [List.map_append] at ho
  exact nested_between rfl (info_ofGroup ha)
    (ho.replace (inOrder_of_derives hi hai) (endsAmong_of_derives hi hai))

/-- A list between brackets of the given shape: its first and last child are the leaves of the two
brackets, and no other child is one. It reaches from the first bracket to the last one. -/
def Delimited (b : Bracket) (n : ParseTree) : Prop :=
  ∃ o c items, n.children = leaf Tag.char o :: items ++ [leaf Tag.char c] ∧
    o.text.toList = [b.opener] ∧ c.text.toList = [b.closer] ∧ (∀ x ∈ items, x.tag ≠ Tag.char) ∧
    n.info = ⟨o.span.start, c.span.stop⟩

theorem delimited_ofGroup {b : Bracket} {o c : Token} {inside : List Token}
    {items : List ParseTree} (hko : o.kind = .opener b) (hkc : c.kind = .closer b)
    (hi : Derives inside items) (hs : ∀ t ∈ o :: inside ++ [c], WellSpelled t)
    (ha : Arranged (o :: inside ++ [c])) : Delimited b (ofGroup b o c items) := by
  obtain ⟨hso, hsi, hsc, -⟩ := forall_mem_group.1 hs
  rw [WellSpelled, hko] at hso
  rw [WellSpelled, hkc] at hsc
  have hchar : Tag.char ∉ exprTags := by decide
  refine ⟨o, c, items, rfl, hso, hsc, fun x hx htag => hchar ?_, info_ofGroup ha⟩
  exact htag ▸ (isBookkeeping_of_derives hi hsi x hx).2

/-- The tags of leaves that are not anchors. -/
def leafTags : List String := [Tag.number, Tag.symbol, Tag.char]

theorem ne_of_mem_leafTags {tag : String} (h : tag ∈ leafTags) :
    tag ≠ Tag.regex ∧ ∀ b, tag ≠ Tag.list b := by
  have hall : ∀ tag ∈ leafTags,
      tag ≠ Tag.regex ∧ ∀ b ∈ [Bracket.round, Bracket.curly], tag ≠ Tag.list b := by decide
  obtain ⟨hregex, hlist⟩ := hall tag h
  refine ⟨hregex, fun b => hlist b ?_⟩
  cases b <;> decide

theorem list_ne_regex (b : Bracket) : Tag.list b ≠ Tag.regex := by
  cases b <;> decide

/-- **A node of derived trees is a leaf or a group**, of tokens that stand together. -/
theorem node_cases_of_derives {ts : List Token} {exprs : List ParseTree} (h : Derives ts exprs)
    {x : ParseTree} (hx : x ∈ exprs) {n : ParseTree} (hn : n ∈ x.nodes) :
    (∃ t ∈ ts, ∃ tag ∈ leafTags, n = leaf tag t) ∨
      ∃ b o c inside items, o :: inside ++ [c] <:+: ts ∧ o.kind = .opener b ∧ c.kind = .closer b ∧
        Derives inside items ∧ n = ofGroup b o c items := by
  rcases exists_run_of_mem_nodes h hx hn with ⟨t, ht, rfl⟩ | ⟨us, hus, hd⟩
  · exact .inl ⟨t, ht, Tag.char, by decide, rfl⟩
  · rcases hd.singleton_cases with ⟨t, rfl, rfl | rfl⟩ | ⟨b, o, c, inside, items, rfl, h⟩
    · exact .inl ⟨t, hus.mem List.mem_cons_self, Tag.number, by decide, rfl⟩
    · exact .inl ⟨t, hus.mem List.mem_cons_self, Tag.symbol, by decide, rfl⟩
    · exact .inr ⟨b, o, c, inside, items, hus, h⟩

theorem eq_of_list_eq_list {b b' : Bracket} (h : Tag.list b = Tag.list b') : b = b' := by
  have hrole := congrArg Tag.role h
  rw [Tag.role_list, Tag.role_list] at hrole
  exact Tag.Role.list.inj hrole

/-- **Nodes of derived trees are well placed**, and the lists among them are delimited. -/
theorem node_of_derives {ts : List Token} {exprs : List ParseTree} (h : Derives ts exprs)
    (hs : ∀ t ∈ ts, WellSpelled t) (ha : Arranged ts) {x : ParseTree} (hx : x ∈ exprs)
    {n : ParseTree} (hn : n ∈ x.nodes) :
    n.tag ≠ Tag.regex ∧ Nested n ∧ ∀ b, n.tag = Tag.list b → Delimited b n := by
  rcases node_cases_of_derives h hx hn with
    ⟨t, -, tag, htag, rfl⟩ | ⟨b, o, c, inside, items, hrun, hko, hkc, hi, rfl⟩
  · obtain ⟨hregex, hlist⟩ := ne_of_mem_leafTags htag
    exact ⟨hregex, nested_of_nil rfl, fun b hb => absurd hb (hlist b)⟩
  · have harun := ha.sublist hrun.sublist
    refine ⟨list_ne_regex b, nested_ofGroup hi harun, fun b' hb' => ?_⟩
    obtain rfl := eq_of_list_eq_list hb'
    exact delimited_ofGroup hko hkc hi (fun t ht => hs t (hrun.mem ht)) harun

/-! ## Whole sources -/

/-- **What a syntax tree has to do with its source** and the tokens of the source. -/
structure WellFormed (source : String) (tokens : List Token) (tree : ParseTree) : Prop where
  tag : tree.tag = Tag.root
  /-- The root stands for the whole source. -/
  start : tree.info.start.toNat = 0
  stop : tree.info.stop.toNat = source.utf8ByteSize
  /-- The first and the last child are the anchors. -/
  anchored : ∃ exprs, tree.children = anchor 0 :: exprs ++ [anchor tree.info.stop]
  /-- There are no other anchors. -/
  anchors : tree.nodes.filter (fun n => n.tag == Tag.regex) = [anchor 0, anchor tree.info.stop]
  /-- Between the anchors the leaves are the tokens. -/
  leaves : tree.leaves = anchor 0 :: tokens.map ofToken ++ [anchor tree.info.stop]
  /-- Leaves hold what the source holds at their place. -/
  marks : ∀ t ∈ tokens, t.span.Marks source t.text
  nested : ∀ n ∈ tree.nodes, Nested n
  delimited : ∀ n ∈ tree.nodes, ∀ b, n.tag = Tag.list b → Delimited b n
  /-- No node below the root is empty except for the anchors. -/
  occupied : ∀ n ∈ tree.nodes, n.tag ≠ Tag.root → n.tag ≠ Tag.regex →
    n.info.start < n.info.stop

theorem children_ofExprs (size : Nat) (exprs : List ParseTree) :
    (ofExprs size exprs).children =
      anchor 0 :: exprs ++ [anchor (Span.ofRange 0 size).stop] := rfl

/-- The nodes of the tree of a source. -/
theorem nodes_ofExprs (size : Nat) (exprs : List ParseTree) :
    (ofExprs size exprs).nodes = ofExprs size exprs :: anchor 0 ::
      (exprs.flatMap nodes ++ [anchor (Span.ofRange 0 size).stop]) := by
  rw [nodes_eq, children_ofExprs, List.cons_append, List.flatMap_cons, List.flatMap_append,
    List.flatMap_singleton, nodes_of_nil rfl, nodes_of_nil rfl, List.singleton_append]

/-- What holds of a root, of anchors and of all expressions holds of every node. -/
theorem forall_mem_nodes_ofExprs {P : ParseTree → Prop} {size : Nat} {exprs : List ParseTree}
    (hroot : P (ofExprs size exprs)) (hanchor : ∀ offset, P (anchor offset))
    (hexprs : ∀ x ∈ exprs, ∀ n ∈ x.nodes, P n) : ∀ n ∈ (ofExprs size exprs).nodes, P n := by
  rw [nodes_ofExprs, List.forall_mem_cons, List.forall_mem_cons, List.forall_mem_append,
    List.forall_mem_flatMap, List.forall_mem_singleton]
  exact ⟨hroot, hanchor 0, hexprs, hanchor _⟩

theorem nested_ofExprs {size : Nat} {ts : List Token} {exprs : List ParseTree}
    (h : Derives ts exprs) (ha : Arranged ts)
    (hstop : ∀ t ∈ ts, t.span.stop ≤ (Span.ofRange 0 size).stop) :
    Nested (ofExprs size exprs) := by
  refine nested_between (children_ofExprs size exprs) rfl
    (Span.InOrder.replace ?_ (inOrder_of_derives h ha) (endsAmong_of_derives h ha))
  -- what is left is that the tokens stand between the two anchors
  have hzero : ∀ k : UInt32, 0 ≤ k := fun k => UInt32.le_iff_toNat_le.2 (Nat.zero_le _)
  rw [Span.inOrder_append_iff, List.singleton_append, Span.inOrder_cons_iff, Span.inOrder_singleton,
    List.forall_mem_cons, List.forall_mem_map]
  refine ⟨⟨UInt32.le_refl _, fun t _ => hzero _, ha.inOrder⟩, UInt32.le_refl _, ?_, ?_⟩
  · exact List.forall_mem_singleton.2 (hzero _)
  · exact List.forall_mem_map.2 fun t ht => List.forall_mem_singleton.2 (hstop t ht)

/-- The anchors are where they should be and nowhere else. -/
theorem filter_regex_ofExprs {size : Nat} {exprs : List ParseTree}
    (h : ∀ x ∈ exprs, ∀ n ∈ x.nodes, n.tag ≠ Tag.regex) :
    (ofExprs size exprs).nodes.filter (fun n => n.tag == Tag.regex) =
      [anchor 0, anchor (Span.ofRange 0 size).stop] := by
  have hexprs : (exprs.flatMap nodes).filter (fun n => n.tag == Tag.regex) = [] := by
    rw [List.filter_eq_nil_iff, List.forall_mem_flatMap]
    exact fun x hx n hn => by rw [beq_iff_eq]; exact h x hx n hn
  have hroot : ((ofExprs size exprs).tag == Tag.regex) = false :=
    beq_eq_false_iff_ne.2 (show Tag.root ≠ Tag.regex by decide)
  simp only [nodes_ofExprs, List.filter_cons, List.filter_append, hexprs, hroot,
    Bool.false_eq_true, if_false]
  rfl

/-- **The tree of every source is well formed.** -/
theorem parse_wellFormed {source : String} {tree : ParseTree}
    (hl : source.utf8ByteSize ≤ Span.limit) (h : parse source = .ok tree) :
    ∃ tokens, Token.lex source = .ok tokens ∧ WellFormed source tokens tree := by
  obtain ⟨tokens, exprs, hlex, hd, rfl⟩ := parse_eq_ok_iff.1 h
  have hs := wellSpelled_of_lex hlex hl
  have hsize := Token.utf8ByteSize_of_lex hlex
  have hlexes := Token.lex_eq_ok_iff.1 hlex
  have hl' : 0 + source.toList.length ≤ Span.limit := by omega
  have ha := hlexes.arranged hl'
  obtain ⟨hstart, hstop⟩ := Span.ofRange_eq (Nat.zero_le _) hl
  have hroot : Nested (ofExprs source.utf8ByteSize exprs) := by
    refine nested_ofExprs hd ha fun t ht => UInt32.le_iff_toNat_le.2 ?_
    have := (hlexes.bounds hl' ht).2.2
    omega
  have hnode := fun x hx n hn => node_of_derives hd hs ha (x := x) hx (n := n) hn
  have htags : ∀ b, Tag.root ≠ Tag.list b ∧ Tag.regex ≠ Tag.list b := by
    intro b
    cases b <;> decide
  refine ⟨tokens, hlex, ?_⟩
  constructor
  case tag => rfl
  case start => exact hstart
  case stop => exact hstop
  case anchored => exact ⟨exprs, rfl⟩
  case anchors => exact filter_regex_ofExprs fun x hx n hn => (hnode x hx n hn).1
  case leaves =>
    rw [leaves_between (children_ofExprs _ exprs) rfl rfl, leaves_of_derives hd]
    rfl
  case marks => exact fun t ht => (Token.marks_of_lex hlex hl ht).1
  case nested =>
    exact forall_mem_nodes_ofExprs hroot (fun offset => nested_of_nil rfl)
      fun x hx n hn => (hnode x hx n hn).2.1
  case delimited =>
    exact forall_mem_nodes_ofExprs (fun b hb => absurd hb (htags b).1)
      (fun offset b hb => absurd hb (htags b).2) fun x hx n hn => (hnode x hx n hn).2.2
  case occupied =>
    exact forall_mem_nodes_ofExprs (fun hne _ => absurd rfl hne) (fun offset _ hne => absurd rfl hne)
      fun x hx n hn _ _ => start_lt_stop_of_derives hd ha x hx n hn

/-- The leaves of a list with a quoted one in it are its pieces, in order. -/
theorem leaves_quoted_list : "(+ \x7b-1\x7d)".utf8ByteSize ≤ Span.limit ∧
    ∃ tree, parse "(+ \x7b-1\x7d)" = .ok tree ∧
      tree.leaves.map contents = ["", "(", "+", "\x7b", "-1", "\x7d", ")", ""] := by
  have hl : "(+ \x7b-1\x7d)".utf8ByteSize ≤ Span.limit := by decide
  have htexts : ((Token.lex "(+ \x7b-1\x7d)").toOption.map (·.map Token.text)) =
      some ["(", "+", "\x7b", "-1", "\x7d", ")"] := by decide +kernel
  have hok : (parse "(+ \x7b-1\x7d)").isOk = true := by decide +kernel
  cases h : parse "(+ \x7b-1\x7d)" with
  | error e =>
    rw [h] at hok
    cases hok
  | ok tree =>
    obtain ⟨tokens, hlex, hwf⟩ := parse_wellFormed hl h
    rw [hlex] at htexts
    have htexts := Option.some.inj htexts
    refine ⟨hl, tree, rfl, ?_⟩
    rw [hwf.leaves, List.map_append, List.map_cons, List.map_map]
    exact congrArg (fun texts => "" :: texts ++ [""]) htexts

end Tree

end Abacus
