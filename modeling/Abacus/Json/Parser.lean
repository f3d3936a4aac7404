import Abacus.Json.Lexer

/-!
# Reading JSON documents

Documents may be nested to any depth; the arrays and objects that are still open are kept on a
list.

Model of the second half of `from_str`: from tokens to a document.

Out of scope: why and where a text is refused.
-/

namespace Abacus.Json

/-- An array or object that is not closed yet, with its parts so far, last one first. An object
waits for the value of a key. -/
inductive Opening where
  | array (items : List Json)
  | object (members : List (Option String × Json)) (key : Option String)

/-- Turn tokens into a document. `value` is the part that was just finished, if the next token
comes after one, and `openings` are the open arrays and objects, innermost first. -/
def build : List Token → (value : Option Json) → (openings : List Opening) → Option Json
  | [], some v, [] => some v
  | .scalar v :: ts, none, os => build ts (some v) os
  | .openArray :: .closeArray :: ts, none, os => build ts (some (.array [])) os
  | .openArray :: ts, none, os => build ts none (.array [] :: os)
  | .openObject :: .closeObject :: ts, none, os => build ts (some (.object [])) os
  | .openObject :: .scalar (.string key) :: .colon :: ts, none, os =>
    build ts none (.object [] key :: os)
  | .comma :: ts, some v, .array items :: os => build ts none (.array (v :: items) :: os)
  | .closeArray :: ts, some v, .array items :: os =>
    build ts (some (.array (v :: items).reverse)) os
  | .comma :: .scalar (.string next) :: .colon :: ts, some v, .object members key :: os =>
    build ts none (.object ((key, v) :: members) next :: os)
  | .closeObject :: ts, some v, .object members key :: os =>
    build ts (some (.object ((key, v) :: members).reverse)) os
  | _, _, _ => none

/-- Read a text that is one JSON document. -/
def parse? (text : String) : Option Json :=
  (lexFrom text.toList []).bind fun tokens => build tokens none []

end Abacus.Json
