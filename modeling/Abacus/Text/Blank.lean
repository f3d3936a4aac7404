/-!
# Blank text

White space by the Unicode property `White_Space`. It is wider than what may stand between tokens:
no-break spaces and line separators belong to it. Zero-width characters do not.

Model of `trim` as the test for a line to be passed over (`isBlankText`), and of the white space
that a report leaves out at the end of a line (`trimEnd`).
-/

namespace Abacus.Text

/-- Whether a character has the Unicode property `White_Space`. -/
def isBlank (c : Char) : Bool :=
  let n := c.toNat
  (0x9 ≤ n && n ≤ 0xD) || n == 0x20 || n == 0x85 || n == 0xA0 || n == 0x1680 ||
    (0x2000 ≤ n && n ≤ 0x200A) || n == 0x2028 || n == 0x2029 || n == 0x202F || n == 0x205F ||
    n == 0x3000

/-- Whether a text holds nothing but white space. -/
def isBlankText (text : List Char) : Bool := text.all isBlank

/-- A text without the white space at its end. -/
def trimEnd (text : List Char) : List Char := (text.reverse.dropWhile isBlank).reverse

end Abacus.Text
