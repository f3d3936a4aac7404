/-!
# JSON documents

A JSON document as a tree. Of a number only its value as an integer is kept, and of a string only
its text; a number with a fraction or an exponent has no such value, and a string with an escaped
surrogate that is not half of a pair has no text. Such documents can be read but their numbers and
strings decode to nothing.

Model of the documents that the `Serialize` and `Deserialize` forms of values, messages, operators
and spans are made of.
-/

namespace Abacus

/-- A JSON document. -/
inductive Json where
  | null
  | bool (value : Bool)
  /-- A number, with its value if it is written as an integer. Minus zero is not. -/
  | number (integer : Option Int)
  /-- A string, with its text if every surrogate in it is paired. -/
  | string (text : Option String)
  | array (items : List Json)
  /-- Members in the order in which they are written, with repetitions. -/
  | object (members : List (Option String × Json))
  deriving Inhabited

namespace Json

/-- A token of a JSON document. -/
inductive Token where
  | openArray
  | closeArray
  | openObject
  | closeObject
  | comma
  | colon
  /-- A document without parts. -/
  | scalar (document : Json)

end Json

end Abacus
