import Abacus.Token.Lexer
import Abacus.Tree

/-!
# From tokens to syntax trees

Brackets are matched with a list of the brackets that are still open, the innermost first. Each
open bracket keeps the trees that were finished before it. In the tree of a list the brackets are
kept as leaves, and the tree of a source starts and ends with an empty leaf.

Model of `parse`. The functions that call each other for every list, `parse_root`, `parse_expr` and
`parse_list`, are one loop here (`build`); `Descent.parse_eq` proves it equal to them.

Out of scope: what is logged.

Headlines: `Tree.build_opener` and `Tree.build_closer`, a bracket opens a list and the next one of
its shape at the same level closes it.
-/

namespace Abacus.Tree

/-! ## Nodes -/

/-- The leaf of a token. -/
def leaf (tag : String) (token : Token) : ParseTree := ⟨tag, token.text, token.span, []⟩

/-- An empty leaf at an offset. -/
def anchor (offset : UInt32) : ParseTree := ⟨Tag.regex, "", .point offset, []⟩

/-- A list that has been opened but not closed. -/
structure Opening where
  bracket : Bracket
  /-- The opening bracket. -/
  token : Token
  /-- The trees before the list at its own level, last one first. -/
  before : List ParseTree

/-- The list that a closing bracket finishes; `items` are its trees, last one first. -/
def Opening.close (o : Opening) (token : Token) (items : List ParseTree) : ParseTree where
  tag := Tag.list o.bracket
  contents := ""
  info := o.token.span.merge token.span
  children := leaf Tag.char o.token :: (leaf Tag.char token :: items).reverse

/-- The tree of a source of `size` bytes with the given expressions. -/
def ofExprs (size : Nat) (exprs : List ParseTree) : ParseTree where
  tag := Tag.root
  contents := ""
  info := .ofRange 0 size
  children := anchor 0 :: exprs ++ [anchor (Span.ofRange 0 size).stop]

/-! ## Matching brackets -/

/-- Turn tokens into trees; `items` are the finished trees of the innermost open list, last one
first, and `openings` the lists that are open. -/
def build (tokens : List Token) (items : List ParseTree) (openings : List Opening) :
    Except ParseError (List ParseTree) :=
  match tokens with
  | [] =>
    match openings with
    | [] => .ok items.reverse
    | o :: _ => .error (.unclosedDelimiter o.token.firstChar o.token.span)
  | t :: ts =>
    match t.kind with
    | .number => build ts (leaf Tag.number t :: items) openings
    | .symbol => build ts (leaf Tag.symbol t :: items) openings
    | .opener b => build ts [] (⟨b, t, items⟩ :: openings)
    | .closer b =>
      match openings with
      | [] => .error (.unmatchedClose t.firstChar t.span)
      | o :: rest =>
        if b = o.bracket then build ts (o.close t items :: o.before) rest
        else .error (.mismatchedClose o.bracket.closer t.firstChar t.span)

/-- The syntax tree of a source. A character that belongs to no token is reported before any fault
of the brackets. -/
def parse (source : String) : Except ParseError ParseTree :=
  match Token.lex source with
  | .error e => .error e
  | .ok tokens =>
    match build tokens [] [] with
    | .error e => .error e
    | .ok exprs => .ok (ofExprs source.utf8ByteSize exprs)

/-! ## What each token does -/

theorem build_number {t : Token} (h : t.kind = .number) (ts : List Token) (items : List ParseTree)
    (openings : List Opening) :
    build (t :: ts) items openings = build ts (leaf Tag.number t :: items) openings := by
  rw [build, h]

theorem build_symbol {t : Token} (h : t.kind = .symbol) (ts : List Token) (items : List ParseTree)
    (openings : List Opening) :
    build (t :: ts) items openings = build ts (leaf Tag.symbol t :: items) openings := by
  rw [build, h]

theorem build_opener {t : Token} {b : Bracket} (h : t.kind = .opener b) (ts : List Token)
    (items : List ParseTree) (openings : List Opening) :
    build (t :: ts) items openings = build ts [] (⟨b, t, items⟩ :: openings) := by
  rw [build, h]

theorem build_closer {t : Token} {o : Opening} (h : t.kind = .closer o.bracket) (ts : List Token)
    (items : List ParseTree) (openings : List Opening) :
    build (t :: ts) items (o :: openings) = build ts (o.close t items :: o.before) openings := by
  rw [build, h]
  exact if_pos rfl

theorem build_closer_of_ne {t : Token} {o : Opening} {b : Bracket} (h : t.kind = .closer b)
    (hb : b ≠ o.bracket) (ts : List Token) (items : List ParseTree) (openings : List Opening) :
    build (t :: ts) items (o :: openings) =
      .error (.mismatchedClose o.bracket.closer t.firstChar t.span) := by
  rw [build, h]
  exact if_neg hb

theorem build_closer_nil {t : Token} {b : Bracket} (h : t.kind = .closer b) (ts : List Token)
    (items : List ParseTree) :
    build (t :: ts) items [] = .error (.unmatchedClose t.firstChar t.span) := by
  rw [build, h]

end Abacus.Tree
