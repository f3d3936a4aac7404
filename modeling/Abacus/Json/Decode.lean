import Abacus.Json.Parser
import Abacus.Operator
import Abacus.Span
import Abacus.Value

/-!
# Decoding

How values, messages, operators and spans are found in JSON documents. A value is an object with a
single member named for its kind; records may also be written as arrays of their fields. Brackets
may be nested up to a limit, but what stands in unknown fields is not looked at.

Model of the `Deserialize` forms of `Value`, `ErrorValue`, `Operator` and `Span`, with the limit
that `from_str` sets to nesting.

Out of scope: why a document is refused, and formats other than JSON.
-/

namespace Abacus.Json

/-- How deep brackets may be nested. -/
def depthLimit : Nat := 127

/-- The one value of a field, if all keys are text and the field is given exactly once. -/
def field? (members : List (Option String × Json)) (key : String) : Option Json :=
  if members.all fun m => m.1.isSome then
    match members.filter fun m => m.1 == some key with
    | [m] => some m.2
    | _ => none
  else none

/-- The text of a string. -/
def toText? : Json → Option String
  | string text => text
  | _ => none

/-- The message of a failure, in a document that may be nested to the given depth. -/
def toMessage? : (depth : Nat) → Json → Option String
  | _ + 1, object members => (field? members "message").bind toText?
  | _ + 1, array [item] => toText? item
  | _, _ => none

/-- A value, in a document that may be nested to the given depth. -/
def toValue? : (depth : Nat) → Json → Option Value
  | _ + 1, object [(some "Number", number (some n))] => (Number.ofInt? n).map .number
  | depth + 1, object [(some "Error", document)] => (toMessage? depth document).map .error
  | _ + 1, object [(some "Symbol", document)] => (toText? document).map .symbol
  | depth + 2, object [(some "SExpr", array items)] => (items.mapM (toValue? depth)).map .sexpr
  | depth + 2, object [(some "QExpr", array items)] => (items.mapM (toValue? depth)).map .qexpr
  | _, _ => none

/-- The name of an operator in documents. -/
def operatorName : Operator → String
  | .add => "Add"
  | .sub => "Sub"
  | .mul => "Mul"
  | .div => "Div"

/-- The operator with the given name. -/
def operatorNamed? (name : String) : Option Operator :=
  Operator.all.find? fun op => operatorName op = name

/-- An operator: its name, or an object that gives the name without a value. -/
def toOperator? : Json → Option Operator
  | string (some name) => operatorNamed? name
  | object [(some name, null)] => operatorNamed? name
  | _ => none

/-- An offset. -/
def toOffset? : Json → Option UInt32
  | number (some n) => if 0 ≤ n ∧ n ≤ Span.limit then some (UInt32.ofNatClamp n.toNat) else none
  | _ => none

/-- A span. -/
def toSpan? : Json → Option Span
  | object members =>
    match (field? members "start").bind toOffset?, (field? members "end").bind toOffset? with
    | some start, some stop => some ⟨start, stop⟩
    | _, _ => none
  | array [start, stop] =>
    match toOffset? start, toOffset? stop with
    | some start, some stop => some ⟨start, stop⟩
    | _, _ => none
  | _ => none

/-! ## Texts -/

/-- Decode the text of a value. -/
def decodeValue? (text : String) : Option Value := (parse? text).bind (toValue? depthLimit)

/-- Decode the text of a message. -/
def decodeMessage? (text : String) : Option String := (parse? text).bind (toMessage? depthLimit)

/-- Decode the text of an operator. -/
def decodeOperator? (text : String) : Option Operator := (parse? text).bind toOperator?

/-- Decode the text of a span. -/
def decodeSpan? (text : String) : Option Span := (parse? text).bind toSpan?

theorem operatorNamed?_operatorName (op : Operator) : operatorNamed? (operatorName op) = some op := by
  cases op <;> decide

end Abacus.Json
