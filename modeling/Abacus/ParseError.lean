import Abacus.Span

/-!
# Parse errors

Why a source has no syntax tree, where the fault is, and how it is described.

Model of `ParseError` with its display (`message`), `label` and `span`.
-/

namespace Abacus

/-- A fault in a source. -/
inductive ParseError where
  /-- A character that belongs to no token. -/
  | unexpectedChar (found : Char) (span : Span)
  /-- A list that is never closed. -/
  | unclosedDelimiter (opener : Char) (span : Span)
  /-- A closing bracket with no list to close. -/
  | unmatchedClose (found : Char) (span : Span)
  /-- A closing bracket of the wrong shape. -/
  | mismatchedClose (expected found : Char) (span : Span)
  deriving DecidableEq, Repr

namespace ParseError

/-- A character between single quotation marks. -/
def quote (c : Char) : String := "'" ++ c.toString ++ "'"

/-- What is wrong. -/
def message : ParseError → String
  | unexpectedChar found _ => "unexpected character " ++ quote found
  | unclosedDelimiter opener _ => "unclosed " ++ quote opener
  | unmatchedClose found _ => "unmatched " ++ quote found
  | mismatchedClose expected found _ => "expected " ++ quote expected ++ " but found " ++ quote found

/-- A short remark to put at the place of the fault. -/
def label : ParseError → String
  | unexpectedChar .. => "not part of any token"
  | unclosedDelimiter .. => "opened here"
  | unmatchedClose .. => "nothing to close"
  | mismatchedClose .. => "wrong closing delimiter"

/-- The place of the fault. -/
def span : ParseError → Span
  | unexpectedChar _ span => span
  | unclosedDelimiter _ span => span
  | unmatchedClose _ span => span
  | mismatchedClose _ _ span => span

end ParseError

end Abacus
