import Abacus.Tree.Parser

/-!
# Parsing by recursive descent

The grammar read off as two functions that call each other: `expr` is the expression that starts
with a token, and `list` goes on with a list up to its closing bracket. Both hand on the tokens that
they leave. No list of open brackets is kept; it is there only as the calls that are in progress.

Headlines:
* `build_list`, `build_expr`: the parser with open brackets goes on after a list or an expression
  as if the descent had been called for it, and stops with the same fault.
* `parse_eq`: both parsers give the same for every source.
-/

namespace Abacus.Tree.Descent

/-! ## The two functions -/

/-- What a call leaves of the tokens `ts`. -/
abbrev Rest (ts : List Token) := { rest : List Token // rest.length ≤ ts.length }

mutual

/-- The expression that starts with `t`, which stands before `ts`. -/
def expr (t : Token) (ts : List Token) : Except ParseError (ParseTree × Rest ts) :=
  match t.kind with
  | .number => .ok (leaf Tag.number t, ⟨ts, Nat.le_refl _⟩)
  | .symbol => .ok (leaf Tag.symbol t, ⟨ts, Nat.le_refl _⟩)
  | .opener b => list b t [leaf Tag.char t] ts
  | .closer _ => .error (.unmatchedClose t.firstChar t.span)
termination_by 2 * ts.length + 1

/-- The list that was opened by `o`, whose children up to here are given. -/
def list (b : Bracket) (o : Token) (children : List ParseTree) (ts : List Token) :
    Except ParseError (ParseTree × Rest ts) :=
  match ts with
  | [] => .error (.unclosedDelimiter o.firstChar o.span)
  | t :: ts =>
    if t.kind = .closer b then
      .ok (⟨Tag.list b, "", o.span.merge t.span, children ++ [leaf Tag.char t]⟩,
        ⟨ts, Nat.le_succ _⟩)
    else if t.kind.isCloser then
      .error (.mismatchedClose b.closer t.firstChar t.span)
    else do
      let (x, rest) ← expr t ts
      let (tree, rest') ← list b o (children ++ [x]) rest.1
      return (tree, ⟨rest'.1, Nat.le_succ_of_le (Nat.le_trans rest'.2 rest.2)⟩)
termination_by 2 * ts.length
decreasing_by
  · simp only [List.length_cons]
    omega
  · have := rest.2
    simp only [List.length_cons]
    omega

end

/-- The expressions up to the end of the tokens, after those in `done`. -/
def exprs (done : List ParseTree) (ts : List Token) : Except ParseError (List ParseTree) :=
  match ts with
  | [] => .ok done
  | t :: ts => do
    let (x, rest) ← expr t ts
    exprs (done ++ [x]) rest.1
termination_by ts.length
decreasing_by
  have := rest.2
  simp only [List.length_cons]
  omega

/-- The syntax tree of a source. -/
def parse (source : String) : Except ParseError ParseTree := do
  let tokens ← Token.lex source
  let children ← exprs [] tokens
  return ofExprs source.utf8ByteSize children

/-! ## Agreement with the list of open brackets -/

/-- Go on with the open brackets after a call of the descent. -/
def resume {ts : List Token} (called : Except ParseError (ParseTree × Rest ts))
    (items : List ParseTree) (openings : List Opening) : Except ParseError (List ParseTree) :=
  match called with
  | .ok (x, rest) => build rest.1 (x :: items) openings
  | .error e => .error e

theorem exists_closer_of_isCloser {kind : Token.Kind} (h : kind.isCloser = true) :
    ∃ b, kind = .closer b := by
  cases kind with
  | closer b => exact ⟨b, rfl⟩
  | number | symbol | opener _ => cases h

/-- An expression is read by one call, if its list is. -/
theorem build_expr_of_list {t : Token} {ts : List Token} (ht : t.kind.isCloser = false)
    (hlist : ∀ b items openings, build ts [] (⟨b, t, items⟩ :: openings) =
      resume (list b t [leaf Tag.char t] ts) items openings)
    (items : List ParseTree) (openings : List Opening) :
    build (t :: ts) items openings = resume (expr t ts) items openings := by
  rw [expr]
  cases hk : t.kind with
  | number => exact build_number hk ts items openings
  | symbol => exact build_symbol hk ts items openings
  | opener b => exact (build_opener hk ts items openings).trans (hlist b items openings)
  | closer b =>
    rw [hk] at ht
    cases ht

/-- **A list is read by one call.** -/
theorem build_list (b : Bracket) (o : Token) (before items : List ParseTree)
    (openings : List Opening) (ts : List Token) :
    build ts items (⟨b, o, before⟩ :: openings) =
      resume (list b o (leaf Tag.char o :: items.reverse) ts) before openings := by
  -- the calls inside a list are made on fewer tokens
  induction hn : ts.length using Nat.strongRecOn generalizing b o before items openings ts with
  | _ n ih =>
    subst hn
    cases ts with
    | nil =>
      rw [list]
      rfl
    | cons t ts =>
      rw [list]
      by_cases hc : t.kind = .closer b
      · rw [if_pos hc, build_closer hc]
        simp [resume, Opening.close]
      rw [if_neg hc]
      by_cases hk : t.kind.isCloser = true
      · rw [if_pos hk]
        obtain ⟨c, hc'⟩ := exists_closer_of_isCloser hk
        have hne : c ≠ b := fun h => hc (h ▸ hc')
        rw [build_closer_of_ne hc' hne]
        rfl
      · rw [if_neg hk, build_expr_of_list (Bool.eq_false_iff.2 hk)
          fun b' items' openings' => ih ts.length (Nat.lt_succ_self _) b' t items' [] openings' ts rfl]
        cases expr t ts with
        | error e => rfl
        | ok called =>
          obtain ⟨x, rest, hrest⟩ := called
          have hnext := ih rest.length (Nat.lt_succ_of_le hrest) b o before (x :: items) openings
            rest rfl
          rw [List.reverse_cons] at hnext
          simp only [resume, hnext, bind, Except.bind, List.cons_append]
          cases list b o (leaf Tag.char o :: (items.reverse ++ [x])) rest <;> rfl

/-- **An expression is read by one call.** -/
theorem build_expr {t : Token} (ht : t.kind.isCloser = false) (ts : List Token)
    (items : List ParseTree) (openings : List Opening) :
    build (t :: ts) items openings = resume (expr t ts) items openings :=
  build_expr_of_list ht (fun b items openings => build_list b t items [] openings ts) items openings

theorem build_exprs (items : List ParseTree) (ts : List Token) :
    build ts items [] = exprs items.reverse ts := by
  induction hn : ts.length using Nat.strongRecOn generalizing items ts with
  | _ n ih =>
    subst hn
    cases ts with
    | nil =>
      rw [exprs]
      rfl
    | cons t ts =>
      rw [exprs]
      by_cases ht : t.kind.isCloser = true
      · obtain ⟨b, hb⟩ := exists_closer_of_isCloser ht
        rw [build_closer_nil hb, expr, hb]
        rfl
      · rw [build_expr (Bool.eq_false_iff.2 ht)]
        cases expr t ts with
        | error e => rfl
        | ok called =>
          obtain ⟨x, rest, hrest⟩ := called
          have hnext := ih rest.length (Nat.lt_succ_of_le hrest) (x :: items) rest rfl
          rw [List.reverse_cons] at hnext
          exact hnext

/-- **Recursive descent gives the same as the list of open brackets**, for every source. -/
theorem parse_eq (source : String) : parse source = Tree.parse source := by
  unfold parse Tree.parse
  cases Token.lex source with
  | error e => rfl
  | ok tokens =>
    have h := build_exprs [] tokens
    rw [List.reverse_nil] at h
    simp only [bind, Except.bind, h]
    cases exprs [] tokens <;> rfl

end Abacus.Tree.Descent
