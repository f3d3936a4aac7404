import Abacus.Json.Decode
import Abacus.Value.Print

/-!
# Encoding

The compact JSON text of values, messages, operators and spans: no white space, fields in a fixed
order, and no escapes but those that strings need.

Model of the `Serialize` forms of `Value`, `ErrorValue`, `Operator` and `Span`, as `to_string`
writes them.

Out of scope: indented output, and formats other than JSON.

Headlines: `Json.encode_sexpr` and `Json.encode_qexpr`, a list is encoded as the array of its cells.
-/

namespace Abacus.Json

/-! ## Strings -/

/-- A hexadecimal digit, in lower case. -/
def hexDigit (n : Nat) : Char := Nat.digitChar n

/-- How a character is written inside a string. -/
def escape (c : Char) : List Char :=
  match c with
  | '"' => ['\\', '"']
  | '\\' => ['\\', '\\']
  | '\x08' => ['\\', 'b']
  | '\x0c' => ['\\', 'f']
  | '\n' => ['\\', 'n']
  | '\r' => ['\\', 'r']
  | '\t' => ['\\', 't']
  | c =>
    if c.toNat < 0x20 then ['\\', 'u', '0', '0', hexDigit (c.toNat / 16), hexDigit (c.toNat % 16)]
    else [c]

/-- The text of a string, with its quotation marks. -/
def quote (text : String) : String := "\"" ++ .ofList (text.toList.flatMap escape) ++ "\""

/-! ## Values -/

/-- An object with a single member, given by its key and the text of its value. -/
def single (key value : String) : String := "\x7b\"" ++ key ++ "\":" ++ value ++ "\x7d"

/-- The text of a message. -/
def encodeMessage (message : String) : String := single "message" (quote message)

open Value in
/-- The pieces of the text of a value. -/
def encodePieces : Value → Pieces
  | .number n => [.inl (single "Number" n.toText)]
  | .error message => [.inl (single "Error" (encodeMessage message))]
  | .symbol name => [.inl (single "Symbol" (quote name))]
  | .sexpr cells => enclosed "\x7b\"SExpr\":[" "," "]\x7d" cells
  | .qexpr cells => enclosed "\x7b\"QExpr\":[" "," "]\x7d" cells

theorem mem_cells_of_mem_encodePieces {v c : Value} (h : .inr c ∈ encodePieces v) :
    c ∈ Value.nesting.parts v := by
  cases v with
  | sexpr cells | qexpr cells => exact Value.mem_of_mem_enclosed h
  | number _ | error _ | symbol _ => simp [encodePieces] at h

/-- The layout of encoded values. -/
def encodeLayout : Layout Value String where
  pieces := encodePieces
  bounded := ⟨Value.nesting.size, fun _ _ h =>
    Value.nesting.size_lt_of_mem (mem_cells_of_mem_encodePieces h)⟩

/-- The text of a value. -/
def encode (v : Value) : String := String.join (encodeLayout.list v)

@[simp] theorem encode_number (n : Number) : encode (.number n) = single "Number" n.toText := by
  rw [encode, Layout.list_eq]
  simp [encodeLayout, encodePieces]

@[simp] theorem encode_error (message : String) :
    encode (.error message) = single "Error" (encodeMessage message) := by
  rw [encode, Layout.list_eq]
  simp [encodeLayout, encodePieces]

@[simp] theorem encode_symbol (name : String) :
    encode (.symbol name) = single "Symbol" (quote name) := by
  rw [encode, Layout.list_eq]
  simp [encodeLayout, encodePieces]

/-- **An S-expression is encoded as the array of its cells.** -/
theorem encode_sexpr (cells : List Value) :
    encode (.sexpr cells) =
      "\x7b\"SExpr\":[" ++ ",".intercalate (cells.map encode) ++ "]\x7d" := by
  rw [encode, Layout.list_eq]
  exact Value.join_enclosed encodeLayout "\x7b\"SExpr\":[" "," "]\x7d" cells

/-- **A Q-expression is encoded as the array of its cells.** -/
theorem encode_qexpr (cells : List Value) :
    encode (.qexpr cells) =
      "\x7b\"QExpr\":[" ++ ",".intercalate (cells.map encode) ++ "]\x7d" := by
  rw [encode, Layout.list_eq]
  exact Value.join_enclosed encodeLayout "\x7b\"QExpr\":[" "," "]\x7d" cells

/-! ## Operators and spans -/

/-- The text of an operator. -/
def encodeOperator (op : Operator) : String := quote (operatorName op)

/-- The text of a span. -/
def encodeSpan (s : Span) : String :=
  "\x7b\"start\":" ++ s.start.toNat.repr ++ ",\"end\":" ++ s.stop.toNat.repr ++ "\x7d"

end Abacus.Json
