/-!
# Lines of text

Two ways to cut a text into lines. Lines to be answered end at a line feed, which does not belong
to them, nor does a carriage return directly before it. Lines to be shown end at any of seven
terminators, which they keep. Bytes are cut at line feeds, which stay with their lines.

Model of `lines` as `run_lines` uses it (`lines`), of the lines of a report (`shownLines`), and of
`read_line` on the bytes of the interactive loop (`takeLine`).

Headlines: `Text.flatten_shownLines`, the shown lines make up the text; `Text.takeLine_append`, a
line of bytes is cut off the front.
-/

namespace Abacus.Text

/-! ## Lines to be answered -/

/-- A finished line whose characters are given last one first: without a final carriage return. -/
def finishLine : List Char → List Char
  | '\r' :: cs => cs.reverse
  | cs => cs.reverse

/-- The lines of the remaining characters; `current` is the line so far, last character first, and
`before` the lines before it, last one first. -/
def linesFrom : List Char → (current : List Char) → (before : List (List Char)) → List (List Char)
  | [], [], before => before.reverse
  | [], current, before => (current.reverse :: before).reverse
  | '\n' :: cs, current, before => linesFrom cs [] (finishLine current :: before)
  | c :: cs, current, before => linesFrom cs (c :: current) before

/-- The lines of a text. A text that ends with a line feed has no empty line after it, and a last
line without a line feed keeps its carriage return. -/
def lines (text : List Char) : List (List Char) := linesFrom text [] []

/-! ## Lines to be shown -/

/-- Characters that end a shown line: line feed, vertical tab, form feed, carriage return, next
line, line separator and paragraph separator. -/
def isTerminator (c : Char) : Bool :=
  let n := c.toNat
  (0xA ≤ n && n ≤ 0xD) || n == 0x85 || n == 0x2028 || n == 0x2029

/-- The shown lines of the remaining characters; `current` is the line so far, last character
first, and `before` the lines before it, last one first. -/
def shownFrom : List Char → (current : List Char) → (before : List (List Char)) → List (List Char)
  | [], [], before => before.reverse
  | [], current, before => (current.reverse :: before).reverse
  | '\r' :: '\n' :: cs, current, before =>
    shownFrom cs [] (('\n' :: '\r' :: current).reverse :: before)
  | c :: cs, current, before =>
    if isTerminator c then shownFrom cs [] ((c :: current).reverse :: before)
    else shownFrom cs (c :: current) before

/-- The shown lines of a text, with their terminators. A line feed directly after a carriage return
belongs to the same terminator. -/
def shownLines (text : List Char) : List (List Char) := shownFrom text [] []

theorem flatten_shownFrom (text current : List Char) (before : List (List Char)) :
    (shownFrom text current before).flatten =
      before.reverse.flatten ++ current.reverse ++ text := by
  fun_induction shownFrom text current before <;> simp_all

/-- **The shown lines make up the text.** -/
theorem flatten_shownLines (text : List Char) : (shownLines text).flatten = text := by
  simp [shownLines, flatten_shownFrom]

/-! ## Lines of bytes -/

/-- The bytes up to the first line feed, which is included, and the bytes after it. -/
def takeLine (bytes : List UInt8) : List UInt8 × List UInt8 :=
  match bytes.dropWhile (· != 0x0A) with
  | [] => (bytes, [])
  | b :: rest => (bytes.takeWhile (· != 0x0A) ++ [b], rest)

/-- **A line of bytes is cut off the front.** -/
theorem takeLine_append (bytes : List UInt8) : (takeLine bytes).1 ++ (takeLine bytes).2 = bytes := by
  unfold takeLine
  split
  · simp
  · next b rest h =>
    rw [List.append_assoc, List.singleton_append, ← h, List.takeWhile_append_dropWhile]

theorem takeLine_fst_ne_nil {bytes : List UInt8} (h : bytes ≠ []) : (takeLine bytes).1 ≠ [] := by
  unfold takeLine
  split <;> simp [h]

/-- What is left after a line is shorter. -/
theorem length_takeLine_snd_lt {bytes : List UInt8} (h : bytes ≠ []) :
    (takeLine bytes).2.length < bytes.length := by
  have ha := congrArg List.length (takeLine_append bytes)
  have hl := List.length_pos_iff.2 (takeLine_fst_ne_nil h)
  rw [List.length_append] at ha
  omega

end Abacus.Text
