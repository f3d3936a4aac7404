import Abacus.ParseError
import Abacus.Token

/-!
# From text to tokens

The source is read from left to right. Blanks are skipped, and at every other place the longest
token is taken: a minus sign directly before a digit belongs to the number. A character that is
neither blank nor part of a token stops the reading.

Model of `lex` with the rules that `TokenKind` gives for each kind.

Out of scope: what is logged.

Headlines: `Token.append_drop_of_lexeme?`, a token takes the next characters of the source;
`Token.lexFrom_eq`, the loop yields the tokens collected so far and then those of the rest.
-/

namespace Abacus.Token

/-- Characters that may stand between tokens. -/
def isBlank (c : Char) : Bool :=
  c = ' ' || c = '\t' || c = '\r' || c = '\n' || c = '\x0c'

/-- The longest token that starts with `c`, where `cs` follows: its kind, and the characters that
it takes from `cs`. -/
def lexeme? (c : Char) (cs : List Char) : Option (Kind × List Char) :=
  if c.isDigit ∨ (c = '-' ∧ cs.takeWhile Char.isDigit ≠ []) then
    some (.number, cs.takeWhile Char.isDigit)
  else (Kind.ofChar? c).map fun kind => (kind, [])

/-- A token takes the next characters of the source. -/
theorem append_drop_of_lexeme? {c : Char} {cs more : List Char} {kind : Kind}
    (h : lexeme? c cs = some (kind, more)) : more ++ cs.drop more.length = cs := by
  have hd : cs.takeWhile Char.isDigit ++ cs.drop (cs.takeWhile Char.isDigit).length = cs := by
    conv => rhs; rw [← List.take_append_drop (cs.takeWhile Char.isDigit).length cs]
    congr 1
    exact List.prefix_iff_eq_take.1 (List.takeWhile_prefix _)
  unfold lexeme? at h
  split at h
  · cases h
    exact hd
  · obtain ⟨k, -, hk⟩ := Option.map_eq_some_iff.1 h
    cases hk
    rfl

/-- Read the characters that start at byte `offset`; `tokens` are those before them, last first. -/
def lexFrom (offset : Nat) (chars : List Char) (tokens : List Token) :
    Except ParseError (List Token) :=
  match chars with
  | [] => .ok tokens.reverse
  | c :: cs =>
    if isBlank c then lexFrom (offset + 1) cs tokens
    else
      match lexeme? c cs with
      | some (kind, more) =>
        lexFrom (offset + 1 + more.length) (cs.drop more.length)
          (ofChars kind offset (c :: more) :: tokens)
      | none => .error (.unexpectedChar c (.ofRange offset (offset + c.utf8Size)))
termination_by chars.length
decreasing_by
  · simp
  · simp only [List.length_drop, List.length_cons]
    omega

/-- The tokens of a source. -/
def lex (source : String) : Except ParseError (List Token) := lexFrom 0 source.toList []

/-- The tokens that were collected come first. -/
theorem lexFrom_eq (offset : Nat) (chars : List Char) (tokens : List Token) :
    lexFrom offset chars tokens = (lexFrom offset chars []).map (tokens.reverse ++ ·) := by
  suffices h : ∀ us, lexFrom offset chars us = (lexFrom offset chars []).map (us.reverse ++ ·) from
    h tokens
  induction offset, chars, tokens using lexFrom.induct with
  | case1 offset tokens => simp [lexFrom, Except.map]
  | case2 offset tokens c cs h ih =>
    intro us
    rw [lexFrom, lexFrom]
    simpa [h] using ih us
  | case3 offset tokens c cs h kind more hm ih =>
    intro us
    rw [lexFrom, lexFrom]
    simp only [h, hm, Bool.false_eq_true, if_false]
    rw [ih (_ :: us), ih [_]]
    cases lexFrom (offset + 1 + more.length) (cs.drop more.length) [] <;> simp [Except.map]
  | case4 offset tokens c cs h hm =>
    intro us
    rw [lexFrom, lexFrom]
    simp [h, hm, Except.map]

end Abacus.Token
