/-!
# Brackets

Lists are written between round brackets, quoted lists between curly ones.

Model of the kinds `LParen` and `RParen`, `LBrace` and `RBrace` of tokens, each pair as one bracket
with an opening and a closing character.
-/

namespace Abacus

/-- A pair of brackets. -/
inductive Bracket where
  | round
  | curly
  deriving DecidableEq, Repr

namespace Bracket

/-- The character that opens a list. -/
def opener : Bracket → Char
  | round => '('
  | curly => '{'

/-- The character that closes a list. -/
def closer : Bracket → Char
  | round => ')'
  | curly => '}'

end Bracket

end Abacus
