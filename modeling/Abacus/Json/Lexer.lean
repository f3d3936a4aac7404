import Abacus.Json

/-!
# Tokens of JSON

Strings and numbers are recognised here, so that the grammar above them deals with whole tokens.

Model of the first half of `from_str`: from a text to tokens.

Out of scope: why and where a text is refused.

Headline: `Json.length_readString_lt`, a string ends within the text.
-/

namespace Abacus.Json

/-! ## Strings -/

/-- A string as far as it has been read: an escaped high surrogate that waits for its other half,
and the characters before it, last one first. There are no characters once a surrogate was left
without its other half. -/
structure Spelled where
  high : Option Nat
  text : Option (List Char)

namespace Spelled

/-- Nothing read yet. -/
def empty : Spelled := ⟨none, some []⟩

/-- A character follows. -/
def addChar (s : Spelled) (c : Char) : Spelled :=
  ⟨none, if s.high.isSome then none else s.text.map (c :: ·)⟩

/-- An escaped UTF-16 unit follows. -/
def addUnit (s : Spelled) (n : Nat) : Spelled :=
  if 0xD800 ≤ n ∧ n < 0xDC00 then ⟨some n, if s.high.isSome then none else s.text⟩
  else if 0xDC00 ≤ n ∧ n < 0xE000 then
    match s.high with
    | some high =>
      ⟨none, s.text.map (.ofNat (0x10000 + (high - 0xD800) * 0x400 + (n - 0xDC00)) :: ·)⟩
    | none => ⟨none, none⟩
  else s.addChar (.ofNat n)

/-- The text of a string that ends here. -/
def finish (s : Spelled) : Option String :=
  if s.high.isSome then none else s.text.map fun cs => .ofList cs.reverse

end Spelled

/-- The value of a hexadecimal digit. -/
def hexDigit? (c : Char) : Option Nat :=
  if c.isDigit then some (c.toNat - '0'.toNat)
  else if 'a' ≤ c ∧ c ≤ 'f' then some (c.toNat - 'a'.toNat + 10)
  else if 'A' ≤ c ∧ c ≤ 'F' then some (c.toNat - 'A'.toNat + 10)
  else none

/-- The value of four hexadecimal digits. -/
def hexUnit? (a b c d : Char) : Option Nat :=
  match hexDigit? a, hexDigit? b, hexDigit? c, hexDigit? d with
  | some a, some b, some c, some d => some (((a * 16 + b) * 16 + c) * 16 + d)
  | _, _, _, _ => none

/-- The character that a letter after a backslash stands for. -/
def unescape? : Char → Option Char
  | '"' => some '"'
  | '\\' => some '\\'
  | '/' => some '/'
  | 'b' => some '\x08'
  | 'f' => some '\x0c'
  | 'n' => some '\n'
  | 'r' => some '\r'
  | 't' => some '\t'
  | _ => none

/-- Read the rest of a string, up to and with its closing quotation mark. Control characters have
to be escaped. -/
def readString : List Char → Spelled → Option (Option String × List Char)
  | [], _ => none
  | '"' :: cs, s => some (s.finish, cs)
  | '\\' :: 'u' :: a :: b :: c :: d :: cs, s =>
    match hexUnit? a b c d with
    | some n => readString cs (s.addUnit n)
    | none => none
  | '\\' :: e :: cs, s =>
    match unescape? e with
    | some c => readString cs (s.addChar c)
    | none => none
  | c :: cs, s => if c.toNat < 0x20 then none else readString cs (s.addChar c)

/-- A string takes at least its closing quotation mark. -/
theorem length_readString_lt {cs rest : List Char} {s : Spelled} {text : Option String}
    (h : readString cs s = some (text, rest)) : rest.length < cs.length := by
  fun_induction readString cs s with
  | case1 => cases h
  | case2 cs s =>
    cases h
    simp
  | case3 s a b c d cs n hn ih =>
    have := ih h
    simp only [List.length_cons]
    omega
  | case4 => cases h
  | case5 s e cs _ c hc ih =>
    have := ih h
    simp only [List.length_cons]
    omega
  | case6 => cases h
  | case7 => cases h
  | case8 s c cs _ _ _ hc ih =>
    have := ih h
    simp only [List.length_cons]
    omega

/-! ## Numbers -/

/-- Characters that occur in numbers. -/
def isNumberChar (c : Char) : Bool :=
  c.isDigit || c == '-' || c == '+' || c == '.' || c == 'e' || c == 'E'

/-- Whether a text is one or more decimal digits. -/
def isDigits (cs : List Char) : Bool := !cs.isEmpty && cs.all Char.isDigit

/-- Whether a text is an exponent, or nothing. -/
def isExponent : List Char → Bool
  | [] => true
  | c :: cs =>
    (c == 'e' || c == 'E') &&
      match cs with
      | '+' :: ds | '-' :: ds => isDigits ds
      | ds => isDigits ds

/-- Whether a text is a fraction, an exponent, or both, or nothing. -/
def isFraction : List Char → Bool
  | '.' :: cs => !(cs.takeWhile Char.isDigit).isEmpty && isExponent (cs.dropWhile Char.isDigit)
  | cs => isExponent cs

/-- Read a number without a sign, if the text is one: its value if it is an integer. There are no
leading zeros. -/
def unsigned? (cs : List Char) : Option (Option Nat) :=
  let digits := cs.takeWhile Char.isDigit
  let rest := cs.dropWhile Char.isDigit
  if digits.isEmpty || (digits.head? == some '0' && digits.length != 1) || !isFraction rest then none
  else some (if rest.isEmpty then some (Nat.ofDigitChars 10 digits 0) else none)

/-- Read a number, if the text is one: its value if it is an integer other than minus zero. -/
def number? : List Char → Option (Option Int)
  | '-' :: cs => (unsigned? cs).map fun n? => n?.bind fun n => if n = 0 then none else some (-(n : Int))
  | cs => (unsigned? cs).map fun n? => n?.map Int.ofNat

/-! ## Tokens -/

/-- Characters that may stand between tokens. -/
def isSpace (c : Char) : Bool := c == ' ' || c == '\t' || c == '\n' || c == '\r'

/-- The token that is one character long. -/
def Token.ofChar? : Char → Option Token
  | '[' => some openArray
  | ']' => some closeArray
  | '{' => some openObject
  | '}' => some closeObject
  | ',' => some comma
  | ':' => some colon
  | _ => none

/-- Read the tokens of a text; `tokens` are those before it, last one first. -/
def lexFrom (chars : List Char) (tokens : List Token) : Option (List Token) :=
  match chars with
  | [] => some tokens.reverse
  | 'n' :: 'u' :: 'l' :: 'l' :: cs => lexFrom cs (.scalar .null :: tokens)
  | 't' :: 'r' :: 'u' :: 'e' :: cs => lexFrom cs (.scalar (.bool true) :: tokens)
  | 'f' :: 'a' :: 'l' :: 's' :: 'e' :: cs => lexFrom cs (.scalar (.bool false) :: tokens)
  | '"' :: cs =>
    match _h : readString cs .empty with
    | some (text, rest) => lexFrom rest (.scalar (.string text) :: tokens)
    | none => none
  | c :: cs =>
    if isSpace c then lexFrom cs tokens
    else
      match Token.ofChar? c with
      | some t => lexFrom cs (t :: tokens)
      | none =>
        match number? (c :: cs.takeWhile isNumberChar) with
        | some n => lexFrom (cs.drop (cs.takeWhile isNumberChar).length) (.scalar (.number n) :: tokens)
        | none => none
termination_by chars.length
decreasing_by
  all_goals simp only [List.length_cons, List.length_drop]
  all_goals try omega
  have := length_readString_lt _h
  omega

end Abacus.Json
