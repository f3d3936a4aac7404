import Abacus.Bracket
import Abacus.Span

/-!
# Tokens

The pieces of a source that mean something: numbers, operator symbols and brackets. A token knows
its kind, the bytes it stands at and its text.

Model of `Token` and `TokenKind` with `text`, `first_char` (`firstChar`) and `is_close`
(`Kind.isCloser`). A token brings its text along, so that the source is not asked again.
-/

namespace Abacus

/-- The kinds of tokens. -/
inductive Token.Kind where
  /-- Decimal digits, maybe after a minus sign. -/
  | number
  /-- An operator. -/
  | symbol
  /-- The start of a list. -/
  | opener (bracket : Bracket)
  /-- The end of a list. -/
  | closer (bracket : Bracket)
  deriving DecidableEq, Repr

/-- A token of a source. -/
structure Token where
  kind : Token.Kind
  /-- The bytes of the token. -/
  span : Span
  /-- What the source holds at the span. -/
  text : String
  deriving DecidableEq, Repr

namespace Token

/-- Whether a kind ends a list. -/
def Kind.isCloser : Kind → Bool
  | closer _ => true
  | _ => false

/-- The kind of a token that is one character long. -/
def Kind.ofChar? : Char → Option Kind
  | '+' | '-' | '*' | '/' => some symbol
  | '(' => some (opener .round)
  | ')' => some (closer .round)
  | '{' => some (opener .curly)
  | '}' => some (closer .curly)
  | _ => none

/-- The token of the given kind whose characters, each one byte long, start at `offset`. Its text
ends where its span does, at the largest offset if not before. -/
def ofChars (kind : Kind) (offset : Nat) (chars : List Char) : Token where
  kind := kind
  span := .ofRange offset (offset + chars.length)
  text := .ofList (chars.take (Span.limit - offset))

/-- The first character of a token. -/
def firstChar (t : Token) : Char := t.text.toList.headD '\x00'

/-- The text of a token is all of its characters if they end within the limit. -/
theorem toList_text_ofChars {kind : Kind} {offset : Nat} {chars : List Char}
    (h : offset + chars.length ≤ Span.limit) : (ofChars kind offset chars).text.toList = chars := by
  rw [ofChars, String.toList_ofList]
  exact List.take_of_length_le (by omega)

end Token

end Abacus
