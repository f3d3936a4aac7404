import Abacus.Tree.Parser

/-!
# Derivations of syntax trees

The grammar of expressions as a relation: `Derives tokens exprs` says that a sequence of tokens is
one of numbers, symbols and bracketed groups, and which trees these have. The parser runs over a
list of open brackets instead; `Reached` is its invariant, the tokens that lead to a state.

Headlines:
* `build_append`: a derived sequence puts its trees in front of the finished ones, wherever it
  stands.
* `Reached.append`, `Reached.close`, `derives_of_build`: every step keeps the invariant, so a run
  that ends well has a derivation.
* `build_eq_ok_iff`, `parse_eq_ok_iff`: parsing succeeds exactly on derivable sequences, with the
  derived trees.
-/

namespace Abacus.Tree

/-! ## The grammar -/

/-- The tree of the list with the given expressions between the brackets `o` and `c`. -/
def ofGroup (b : Bracket) (o c : Token) (exprs : List ParseTree) : ParseTree where
  tag := Tag.list b
  contents := ""
  info := o.span.merge c.span
  children := leaf Tag.char o :: exprs ++ [leaf Tag.char c]

/-- A sequence of tokens with the trees of its expressions. -/
inductive Derives : List Token → List ParseTree → Prop
  | nil : Derives [] []
  | number {t : Token} {ts : List Token} {exprs : List ParseTree} (ht : t.kind = .number)
      (h : Derives ts exprs) : Derives (t :: ts) (leaf Tag.number t :: exprs)
  | symbol {t : Token} {ts : List Token} {exprs : List ParseTree} (ht : t.kind = .symbol)
      (h : Derives ts exprs) : Derives (t :: ts) (leaf Tag.symbol t :: exprs)
  | group {b : Bracket} {o c : Token} {inside ts : List Token} {items exprs : List ParseTree}
      (ho : o.kind = .opener b) (hc : c.kind = .closer b) (hi : Derives inside items)
      (h : Derives ts exprs) : Derives (o :: inside ++ c :: ts) (ofGroup b o c items :: exprs)

/-- What holds of every token of a group and of those after it. -/
theorem forall_mem_group {P : Token → Prop} {o c : Token} {inside ts : List Token} :
    (∀ t ∈ o :: inside ++ c :: ts, P t) ↔
      P o ∧ (∀ t ∈ inside, P t) ∧ P c ∧ ∀ t ∈ ts, P t := by
  rw [List.cons_append, List.forall_mem_cons, List.forall_mem_append, List.forall_mem_cons]

theorem Derives.append {ts us : List Token} {exprs more : List ParseTree}
    (h : Derives ts exprs) (h' : Derives us more) : Derives (ts ++ us) (exprs ++ more) := by
  induction h with
  | nil => exact h'
  | number ht _ ih => exact .number ht ih
  | symbol ht _ ih => exact .symbol ht ih
  | group ho hc hi _ _ ih =>
    rw [List.append_assoc, List.cons_append]
    exact .group ho hc hi ih

/-- Closing an open list makes the tree of the group. -/
theorem close_reverse (b : Bracket) (o c : Token) (before items : List ParseTree) :
    (⟨b, o, before⟩ : Opening).close c items.reverse = ofGroup b o c items := by
  simp [Opening.close, ofGroup]

/-- **A derived sequence puts its trees in front of the finished ones.** -/
theorem build_append {ts : List Token} {exprs : List ParseTree} (h : Derives ts exprs)
    (rest : List Token) (items : List ParseTree) (openings : List Opening) :
    build (ts ++ rest) items openings = build rest (exprs.reverse ++ items) openings := by
  induction h generalizing rest items openings with
  | nil => rfl
  | number ht _ ih =>
    rw [List.cons_append, build_number ht, ih, List.reverse_cons, List.append_assoc]
    rfl
  | symbol ht _ ih =>
    rw [List.cons_append, build_symbol ht, ih, List.reverse_cons, List.append_assoc]
    rfl
  | @group b o c inside ts inner exprs ho hc _ _ ihi ih =>
    rw [List.append_assoc, List.cons_append, List.cons_append, build_opener ho, ihi,
      List.append_nil, build_closer hc, ih, close_reverse, List.reverse_cons, List.append_assoc]
    rfl

/-! ## The invariant of the parser -/

/-- The tokens that lead to a state: `items` are derived by those after the innermost open bracket,
and `openings` are the brackets still open, each with the trees derived before it. -/
inductive Reached : List Token → List ParseTree → List Opening → Prop
  | outside {ts : List Token} {exprs : List ParseTree} (h : Derives ts exprs) :
      Reached ts exprs.reverse []
  | inside {b : Bracket} {o : Token} {pre ts : List Token} {before exprs : List ParseTree}
      {openings : List Opening} (ho : o.kind = .opener b) (hp : Reached pre before openings)
      (h : Derives ts exprs) : Reached (pre ++ o :: ts) exprs.reverse (⟨b, o, before⟩ :: openings)

/-- Further expressions go to the innermost open list. -/
theorem Reached.append {pre ts : List Token} {items exprs : List ParseTree}
    {openings : List Opening} (hr : Reached pre items openings) (h : Derives ts exprs) :
    Reached (pre ++ ts) (exprs.reverse ++ items) openings := by
  cases hr with
  | outside hp =>
    rw [← List.reverse_append]
    exact .outside (hp.append h)
  | inside ho hp hi =>
    rw [List.append_assoc, List.cons_append, ← List.reverse_append]
    exact .inside ho hp (hi.append h)

/-- A closing bracket turns the innermost open list into an expression of the list around it. -/
theorem Reached.close {pre : List Token} {items : List ParseTree} {o : Opening}
    {openings : List Opening} {t : Token} (hr : Reached pre items (o :: openings))
    (ht : t.kind = .closer o.bracket) :
    Reached (pre ++ [t]) (o.close t items :: o.before) openings := by
  cases hr with
  | @inside b o pre ts before exprs _ ho hp h =>
    rw [close_reverse, List.append_assoc]
    exact hp.append (.group ho ht h .nil)

/-- **Every step keeps the invariant**, and a run that ends without a fault ends outside of all
lists: the tokens read before and those still to be read derive the result. -/
theorem derives_of_build {pre ts : List Token} {items exprs : List ParseTree}
    {openings : List Opening} (hr : Reached pre items openings)
    (h : build ts items openings = .ok exprs) : Derives (pre ++ ts) exprs := by
  induction ts generalizing pre items openings with
  | nil =>
    cases hr with
    | outside hp =>
      rw [build, List.reverse_reverse] at h
      cases h
      rw [List.append_nil]
      exact hp
    | inside => cases h
  | cons t ts ih =>
    rw [← List.singleton_append, ← List.append_assoc]
    cases hk : t.kind with
    | number =>
      rw [build_number hk] at h
      exact ih (hr.append (.number hk .nil)) h
    | symbol =>
      rw [build_symbol hk] at h
      exact ih (hr.append (.symbol hk .nil)) h
    | opener b =>
      rw [build_opener hk] at h
      exact ih (.inside hk hr .nil) h
    | closer b =>
      cases openings with
      | nil =>
        rw [build_closer_nil hk] at h
        cases h
      | cons o openings =>
        by_cases hb : b = o.bracket
        · subst hb
          rw [build_closer hk] at h
          exact ih (hr.close hk) h
        · rw [build_closer_of_ne hk hb] at h
          cases h

/-- **Brackets match exactly in derivable sequences**, and then the trees are the derived ones. -/
theorem build_eq_ok_iff {ts : List Token} {exprs : List ParseTree} :
    build ts [] [] = .ok exprs ↔ Derives ts exprs := by
  constructor
  · intro h
    exact derives_of_build (.outside .nil) h
  · intro h
    have := build_append h [] [] []
    rw [List.append_nil, List.append_nil] at this
    rw [this, build, List.reverse_reverse]

/-- A sequence of tokens has at most one list of trees. -/
theorem Derives.unique {ts : List Token} {exprs more : List ParseTree} (h : Derives ts exprs)
    (h' : Derives ts more) : exprs = more :=
  Except.ok.inj ((build_eq_ok_iff.2 h).symm.trans (build_eq_ok_iff.2 h'))

/-- **A source has a syntax tree exactly if it can be lexed and its tokens derive expressions.** -/
theorem parse_eq_ok_iff {source : String} {tree : ParseTree} :
    parse source = .ok tree ↔
      ∃ tokens exprs, Token.lex source = .ok tokens ∧ Derives tokens exprs ∧
        tree = ofExprs source.utf8ByteSize exprs := by
  unfold parse
  constructor
  · intro h
    split at h
    · cases h
    · next tokens hlex =>
      split at h
      · cases h
      · next exprs hbuild =>
        cases h
        exact ⟨tokens, exprs, hlex, build_eq_ok_iff.1 hbuild, rfl⟩
  · rintro ⟨tokens, exprs, hlex, hd, rfl⟩
    simp only [hlex, build_eq_ok_iff.2 hd]

end Abacus.Tree
