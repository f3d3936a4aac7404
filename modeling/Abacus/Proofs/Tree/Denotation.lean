import Abacus.Proofs.Token.Lexing
import Abacus.Proofs.Tree.Nodes
import Abacus.Tree.Reader

/-!
# What a sequence of tokens means

`Denotes tokens values` gives the values of a sequence of tokens without a syntax tree in between:
a number is read, a symbol stands for itself, and a bracketed group is the list of what is inside.
Reading the syntax tree of a source gives the same values. What it skips on the way are the brackets
and the anchors, and it skips nothing else.

Headlines:
* `denotes_iff`: on well-spelled tokens the values are those of the derived trees.
* `skipsExactly_of_derives`: among the children of any node, brackets and anchors are skipped and
  expressions are kept.
* `readSource_eq_denotation`: a source is read as what its tokens denote.
-/

namespace Abacus.Tree

/-! ## Values of tokens -/

/-- A sequence of tokens with the values of its expressions, in order. -/
inductive Denotes : List Token → List Value → Prop
  | nil : Denotes [] []
  | number {t : Token} {ts : List Token} {values : List Value} (ht : t.kind = .number)
      (h : Denotes ts values) : Denotes (t :: ts) (readNumber t.text :: values)
  | symbol {t : Token} {ts : List Token} {values : List Value} (ht : t.kind = .symbol)
      (h : Denotes ts values) : Denotes (t :: ts) (.symbol t.text :: values)
  | group {b : Bracket} {o c : Token} {inside ts : List Token} {cells values : List Value}
      (ho : o.kind = .opener b) (hc : c.kind = .closer b) (hi : Denotes inside cells)
      (h : Denotes ts values) : Denotes (o :: inside ++ c :: ts) (.ofBracket b cells :: values)

theorem Denotes.append {ts us : List Token} {values more : List Value} (h : Denotes ts values)
    (h' : Denotes us more) : Denotes (ts ++ us) (values ++ more) := by
  induction h with
  | nil => exact h'
  | number ht _ ih => exact .number ht ih
  | symbol ht _ ih => exact .symbol ht ih
  | group ho hc hi _ _ ih =>
    rw [List.append_assoc, List.cons_append]
    exact .group ho hc hi ih

/-! ## What is skipped -/

section Bookkeeping

variable {ι : Type}

theorem isBookkeeping_iff {t : Tree ι} : t.isBookkeeping = true ↔
    (∃ b : Bracket, t.contents.toList = [b.opener] ∨ t.contents.toList = [b.closer]) ∨
      t.tag = Tag.regex := by
  have h : ∀ s : String, ["(", ")", "\x7b", "\x7d"].contains s = true ↔
      ∃ b : Bracket, s.toList = [b.opener] ∨ s.toList = [b.closer] := by
    intro s
    simp only [List.contains_iff_mem, List.mem_cons, List.not_mem_nil, or_false,
      ← String.toList_inj]
    constructor
    · rintro (hs | hs | hs | hs)
      · exact ⟨.round, .inl hs⟩
      · exact ⟨.round, .inr hs⟩
      · exact ⟨.curly, .inl hs⟩
      · exact ⟨.curly, .inr hs⟩
    · rintro ⟨b, hs | hs⟩ <;> cases b <;> simp [hs, Bracket.opener, Bracket.closer]
  rw [isBookkeeping, Bool.or_eq_true, h, beq_iff_eq]

/-- A list is read from those of its children that are not skipped. -/
theorem read_of_role_list {t : Tree ι} {b : Bracket} (h : Tag.role t.tag = .list b) :
    t.read = .ofBracket b ((t.children.filter fun c => !c.isBookkeeping).map read) := by
  rw [read_eq]
  simp only [readNode, kept, h]

end Bookkeeping

/-- A token whose text is spelled as its kind asks. -/
def WellSpelled (t : Token) : Prop := t.kind.Spells t.text.toList

theorem wellSpelled_of_lex {source : String} {tokens : List Token}
    (h : Token.lex source = .ok tokens) (hl : source.utf8ByteSize ≤ Span.limit) :
    ∀ t ∈ tokens, WellSpelled t :=
  fun _ ht => (Token.marks_of_lex h hl ht).2

/-- No bracket is a digit, a minus sign or the symbol of an operator. -/
theorem not_spells_bracket {kind : Token.Kind} (hk : kind = .number ∨ kind = .symbol)
    (b : Bracket) : ¬kind.Spells [b.opener] ∧ ¬kind.Spells [b.closer] := by
  have hnumber : ∀ c : Char, c.isDigit = false → c ≠ '-' → ¬Token.Kind.number.Spells [c] := by
    rintro c hc hm ⟨ds, -, hds, he | he⟩
    · have := hds c (by simp [← he])
      rw [hc] at this
      cases this
    · exact hm (List.cons.inj he).1
  rcases hk with rfl | rfl
  · cases b <;> exact ⟨hnumber _ (by decide) (by decide), hnumber _ (by decide) (by decide)⟩
  · constructor <;> rintro ⟨op, he⟩ <;> cases b <;> cases op <;> exact absurd he (by decide)

theorem isBookkeeping_leaf_of_atom {t : Token} {tag : String} (hs : WellSpelled t)
    (hk : t.kind = .number ∨ t.kind = .symbol) (htag : tag ≠ Tag.regex) :
    (leaf tag t).isBookkeeping = false := by
  rw [Bool.eq_false_iff]
  intro h
  rcases isBookkeeping_iff.1 h with ⟨b, hb | hb⟩ | h
  · exact (not_spells_bracket hk b).1 (hb ▸ hs)
  · exact (not_spells_bracket hk b).2 (hb ▸ hs)
  · exact htag h

theorem isBookkeeping_leaf_of_opener {t : Token} {b : Bracket} (tag : String)
    (hs : WellSpelled t) (hk : t.kind = .opener b) : (leaf tag t).isBookkeeping = true := by
  rw [WellSpelled, hk] at hs
  exact isBookkeeping_iff.2 (.inl ⟨b, .inl hs⟩)

theorem isBookkeeping_leaf_of_closer {t : Token} {b : Bracket} (tag : String)
    (hs : WellSpelled t) (hk : t.kind = .closer b) : (leaf tag t).isBookkeeping = true := by
  rw [WellSpelled, hk] at hs
  exact isBookkeeping_iff.2 (.inl ⟨b, .inr hs⟩)

theorem isBookkeeping_anchor (offset : UInt32) : (anchor offset).isBookkeeping = true :=
  isBookkeeping_iff.2 (.inr rfl)

theorem isBookkeeping_ofGroup (b : Bracket) (o c : Token) (items : List ParseTree) :
    (ofGroup b o c items).isBookkeeping = false := by
  cases b <;> rfl

/-- The tags of expressions. -/
def exprTags : List String := [Tag.number, Tag.symbol, Tag.sexpr, Tag.qexpr]

/-- **Expressions are kept**, and they are tagged as such. -/
theorem isBookkeeping_of_derives {ts : List Token} {exprs : List ParseTree}
    (h : Derives ts exprs) (hs : ∀ t ∈ ts, WellSpelled t) :
    ∀ x ∈ exprs, x.isBookkeeping = false ∧ x.tag ∈ exprTags := by
  induction h with
  | nil => intro x hx; cases hx
  | number ht _ ih =>
    obtain ⟨hs, hss⟩ := List.forall_mem_cons.1 hs
    exact List.forall_mem_cons.2
      ⟨⟨isBookkeeping_leaf_of_atom hs (.inl ht) (by decide), List.mem_cons_self⟩, ih hss⟩
  | symbol ht _ ih =>
    obtain ⟨hs, hss⟩ := List.forall_mem_cons.1 hs
    exact List.forall_mem_cons.2
      ⟨⟨isBookkeeping_leaf_of_atom hs (.inr ht) (by decide),
        show Tag.symbol ∈ exprTags by decide⟩, ih hss⟩
  | @group b o c inside ts items exprs _ _ _ _ _ ih =>
    obtain ⟨-, -, -, hss⟩ := forall_mem_group.1 hs
    have htag : Tag.list b ∈ exprTags := by cases b <;> decide
    exact List.forall_mem_cons.2 ⟨⟨isBookkeeping_ofGroup b o c items, htag⟩, ih hss⟩

/-! ## Reading derived trees -/

theorem read_leaf_number (t : Token) : (leaf Tag.number t).read = readNumber t.text := by
  rw [read_eq]
  simp only [readNode, leaf, Tag.role_number]

theorem read_leaf_symbol (t : Token) : (leaf Tag.symbol t).read = .symbol t.text := by
  rw [read_eq]
  simp only [readNode, leaf, Tag.role_symbol]

/-- Of expressions between two leaves that are skipped, exactly the expressions are kept. -/
theorem filter_between {first last : ParseTree} {exprs : List ParseTree}
    (hf : first.isBookkeeping = true) (hl : last.isBookkeeping = true)
    (h : ∀ x ∈ exprs, x.isBookkeeping = false) :
    (first :: exprs ++ [last]).filter (fun c => !c.isBookkeeping) = exprs := by
  have hexprs : exprs.filter (fun c => !c.isBookkeeping) = exprs :=
    List.filter_eq_self.2 fun x hx => by rw [h x hx]; rfl
  rw [List.cons_append, List.filter_cons_of_neg (by simp [hf]), List.filter_append, hexprs,
    List.filter_cons_of_neg (by simp [hl]), List.filter_nil, List.append_nil]

theorem read_ofGroup {b : Bracket} {o c : Token} {inside : List Token} {items : List ParseTree}
    (ho : o.kind = .opener b) (hc : c.kind = .closer b) (hso : WellSpelled o)
    (hsc : WellSpelled c) (hi : Derives inside items) (hsi : ∀ t ∈ inside, WellSpelled t) :
    (ofGroup b o c items).read = .ofBracket b (items.map read) := by
  have hrole : Tag.role (ofGroup b o c items).tag = .list b := Tag.role_list b
  rw [read_of_role_list hrole]
  congr 2
  exact filter_between (isBookkeeping_leaf_of_opener _ hso ho)
    (isBookkeeping_leaf_of_closer _ hsc hc) fun x hx => (isBookkeeping_of_derives hi hsi x hx).1

theorem read_ofExprs {ts : List Token} {exprs : List ParseTree} (h : Derives ts exprs)
    (hs : ∀ t ∈ ts, WellSpelled t) (size : Nat) :
    (ofExprs size exprs).read = .sexpr (exprs.map read) := by
  have hkept := filter_between (isBookkeeping_anchor 0)
    (isBookkeeping_anchor (Span.ofRange 0 size).stop)
    fun x hx => (isBookkeeping_of_derives h hs x hx).1
  have hrole : Tag.role (ofExprs size exprs).tag = .list .round := Tag.role_root
  rw [read_of_role_list hrole]
  exact congrArg (fun cells => Value.sexpr (cells.map read)) hkept

theorem denotes_of_derives {ts : List Token} {exprs : List ParseTree} (h : Derives ts exprs)
    (hs : ∀ t ∈ ts, WellSpelled t) : Denotes ts (exprs.map read) := by
  induction h with
  | nil => exact .nil
  | @number t ts exprs ht _ ih =>
    rw [List.map_cons, read_leaf_number]
    exact .number ht (ih (List.forall_mem_cons.1 hs).2)
  | @symbol t ts exprs ht _ ih =>
    rw [List.map_cons, read_leaf_symbol]
    exact .symbol ht (ih (List.forall_mem_cons.1 hs).2)
  | @group b o c inside ts items exprs ho hc hi _ ihi ih =>
    obtain ⟨hso, hsi, hsc, hss⟩ := forall_mem_group.1 hs
    rw [List.map_cons, read_ofGroup ho hc hso hsc hi hsi]
    exact .group ho hc (ihi hsi) (ih hss)

theorem Denotes.exists_derives {ts : List Token} {values : List Value} (h : Denotes ts values)
    (hs : ∀ t ∈ ts, WellSpelled t) : ∃ exprs, Derives ts exprs ∧ exprs.map read = values := by
  induction h with
  | nil => exact ⟨[], .nil, rfl⟩
  | @number t ts values ht _ ih =>
    obtain ⟨exprs, h, rfl⟩ := ih (List.forall_mem_cons.1 hs).2
    exact ⟨_, .number ht h, by rw [List.map_cons, read_leaf_number]⟩
  | @symbol t ts values ht _ ih =>
    obtain ⟨exprs, h, rfl⟩ := ih (List.forall_mem_cons.1 hs).2
    exact ⟨_, .symbol ht h, by rw [List.map_cons, read_leaf_symbol]⟩
  | @group b o c inside ts cells values ho hc _ _ ihi ih =>
    obtain ⟨hso, hsi, hsc, hss⟩ := forall_mem_group.1 hs
    obtain ⟨items, hi, rfl⟩ := ihi hsi
    obtain ⟨exprs, h, rfl⟩ := ih hss
    exact ⟨_, .group ho hc hi h, by rw [List.map_cons, read_ofGroup ho hc hso hsc hi hsi]⟩

/-- **The values of tokens are those of the derived trees.** -/
theorem denotes_iff {ts : List Token} (hs : ∀ t ∈ ts, WellSpelled t) {values : List Value} :
    Denotes ts values ↔ ∃ exprs, Derives ts exprs ∧ exprs.map read = values := by
  refine ⟨fun h => h.exists_derives hs, ?_⟩
  rintro ⟨exprs, h, rfl⟩
  exact denotes_of_derives h hs

/-- A sequence of tokens has at most one list of values. -/
theorem Denotes.unique {ts : List Token} (hs : ∀ t ∈ ts, WellSpelled t)
    {values others : List Value} (h : Denotes ts values) (h' : Denotes ts others) :
    others = values := by
  obtain ⟨exprs, hd, rfl⟩ := (denotes_iff hs).1 h
  obtain ⟨exprs', hd', rfl⟩ := (denotes_iff hs).1 h'
  rw [hd.unique hd']

/-- **Reading a source** succeeds exactly if its tokens denote values, and gives these. -/
theorem readSource_eq_ok_iff {source : String} (hl : source.utf8ByteSize ≤ Span.limit) {v : Value} :
    readSource source = .ok v ↔
      ∃ tokens values, Token.lex source = .ok tokens ∧ Denotes tokens values ∧
        v = .sexpr values := by
  constructor
  · intro h
    unfold readSource at h
    split at h
    · next tree htree =>
      obtain ⟨tokens, exprs, hlex, hd, rfl⟩ := parse_eq_ok_iff.1 htree
      have hs := wellSpelled_of_lex hlex hl
      rw [read_ofExprs hd hs] at h
      cases h
      exact ⟨tokens, _, hlex, denotes_of_derives hd hs, rfl⟩
    · cases h
  · rintro ⟨tokens, values, hlex, h, rfl⟩
    have hs := wellSpelled_of_lex hlex hl
    obtain ⟨exprs, hd, rfl⟩ := h.exists_derives hs
    simp only [readSource, parse_eq_ok_iff.2 ⟨tokens, exprs, hlex, hd, rfl⟩, read_ofExprs hd hs]

/-! ## What is skipped in whole sources -/

/-- What is skipped among the children of a node: the brackets and the anchors. -/
def SkipsExactly (n : ParseTree) : Prop :=
  ∀ c ∈ n.children, c.isBookkeeping = true ↔ c.tag = Tag.char ∨ c.tag = Tag.regex

theorem skipsExactly_between {n first last : ParseTree} {exprs : List ParseTree}
    (hn : n.children = first :: exprs ++ [last])
    (hf : first.isBookkeeping = true ∧ (first.tag = Tag.char ∨ first.tag = Tag.regex))
    (hl : last.isBookkeeping = true ∧ (last.tag = Tag.char ∨ last.tag = Tag.regex))
    (h : ∀ x ∈ exprs, x.isBookkeeping = false ∧ x.tag ∈ exprTags) : SkipsExactly n := by
  have hexpr : ∀ tag ∈ exprTags, ¬(tag = Tag.char ∨ tag = Tag.regex) := by decide
  rw [SkipsExactly, hn, List.cons_append, List.forall_mem_cons, List.forall_mem_append,
    List.forall_mem_singleton]
  refine ⟨iff_of_true hf.1 hf.2, fun x hx => ?_, iff_of_true hl.1 hl.2⟩
  obtain ⟨hb, ht⟩ := h x hx
  exact iff_of_false (Bool.eq_false_iff.1 hb) (hexpr x.tag ht)

/-- **At every node of derived trees** exactly the brackets and the anchors are skipped. -/
theorem skipsExactly_of_derives {ts : List Token} {exprs : List ParseTree}
    (h : Derives ts exprs) (hs : ∀ t ∈ ts, WellSpelled t) (size : Nat) :
    ∀ n ∈ (ofExprs size exprs).nodes, SkipsExactly n := by
  have hleaf : ∀ tag t, SkipsExactly (leaf tag t) := fun tag t c hc => by cases hc
  have hanchor : ∀ offset, ∀ n ∈ (anchor offset).nodes, SkipsExactly n := fun offset =>
    forall_mem_nodes_of_nil rfl fun c hc => by cases hc
  have hexprs := isBookkeeping_of_derives h hs
  refine forall_mem_nodes_iff.2 ⟨?_, ?_⟩
  · exact skipsExactly_between rfl ⟨isBookkeeping_anchor _, .inr rfl⟩
      ⟨isBookkeeping_anchor _, .inr rfl⟩ hexprs
  · rw [ofExprs, List.cons_append, List.forall_mem_cons, List.forall_mem_append,
      List.forall_mem_singleton]
    refine ⟨hanchor _, ?_, hanchor _⟩
    refine forall_nodes_of_derives (fun t _ _ => hleaf _ t) (fun t _ _ => hleaf _ t)
      (fun t _ _ _ => hleaf _ t) (fun t _ _ _ => hleaf _ t) ?_ h hs
    intro b o c inside items hso hsc ho hc hsi hi
    exact skipsExactly_between rfl ⟨isBookkeeping_leaf_of_opener _ hso ho, .inl rfl⟩
      ⟨isBookkeeping_leaf_of_closer _ hsc hc, .inl rfl⟩ (isBookkeeping_of_derives hi hsi)

/-- **A source is read as what its tokens denote**: the values of its expressions in order, which
are determined by the tokens alone. Nothing but brackets and anchors is skipped, at any node. -/
theorem readSource_eq_denotation {source : String} {tree : ParseTree}
    (hl : source.utf8ByteSize ≤ Span.limit) (h : parse source = .ok tree) :
    ∃ tokens values, Token.lex source = .ok tokens ∧ Denotes tokens values ∧
      (∀ others, Denotes tokens others → others = values) ∧
      readSource source = .ok (.sexpr values) ∧ ∀ n ∈ tree.nodes, SkipsExactly n := by
  obtain ⟨tokens, exprs, hlex, hd, rfl⟩ := parse_eq_ok_iff.1 h
  have hs := wellSpelled_of_lex hlex hl
  have hdenotes := denotes_of_derives hd hs
  exact ⟨tokens, exprs.map read, hlex, hdenotes, fun others h' => hdenotes.unique hs h',
    (readSource_eq_ok_iff hl).2 ⟨tokens, _, hlex, hdenotes, rfl⟩, skipsExactly_of_derives hd hs _⟩

/-- An operator and a quoted negative number, read off their tokens. -/
theorem readSource_quoted_denotation :
    "(- \x7b-1\x7d)".utf8ByteSize ≤ Span.limit ∧ (∃ tree, parse "(- \x7b-1\x7d)" = .ok tree) ∧
      readSource "(- \x7b-1\x7d)" = .ok (.sexpr [.sexpr [.symbol "-", .qexpr [.number (-1)]]]) := by
  have hl : "(- \x7b-1\x7d)".utf8ByteSize ≤ Span.limit := by decide
  have hlex : (Token.lex "(- \x7b-1\x7d)").toOption = some
      [.ofChars (.opener .round) 0 ['('], .ofChars .symbol 1 ['-'],
        .ofChars (.opener .curly) 3 ['\x7b'], .ofChars .number 4 ['-', '1'],
        .ofChars (.closer .curly) 6 ['\x7d'], .ofChars (.closer .round) 7 [')']] := by
    decide +kernel
  have hok : (parse "(- \x7b-1\x7d)").isOk = true := by decide +kernel
  cases h : parse "(- \x7b-1\x7d)" with
  | error e =>
    rw [h] at hok
    cases hok
  | ok tree =>
    obtain ⟨tokens, values, hlex', hdenotes, hunique, hread, -⟩ := readSource_eq_denotation hl h
    rw [hlex'] at hlex
    cases hlex
    have hquoted : Denotes _ [.qexpr [.number (-1)]] :=
      @Denotes.group .curly (.ofChars (.opener .curly) 3 ['\x7b'])
        (.ofChars (.closer .curly) 6 ['\x7d']) [.ofChars .number 4 ['-', '1']] [] _ _
        rfl rfl (.number rfl .nil) .nil
    have hall := @Denotes.group .round (.ofChars (.opener .round) 0 ['('])
      (.ofChars (.closer .round) 7 [')']) (.ofChars .symbol 1 ['-'] :: _) [] _ _
      rfl rfl (.symbol rfl hquoted) .nil
    rw [← hunique _ hall] at hread
    exact ⟨hl, ⟨tree, rfl⟩, hread⟩

end Abacus.Tree
