import Abacus.ParseError
import Abacus.Text.Blank
import Abacus.Text.Lines
import Abacus.Text.Width

/-!
# Reports of faults

A fault is reported by its message, the line of the source that it is in, and a label drawn under
the place of the fault:

    Error: unmatched ')'
       ╭─[<unknown>:1:7]
       │
     1 │ (+ 1 2))
       │       ┬
       │       ╰── nothing to close
    ───╯

Places are given by offsets into the characters of the source. The rows under the source line are
drawn column by column, so that they keep in step with tabs and with wide and invisible characters.

Model of `render_parse_error` (`render`), with the layout of a report that has one label and no
colour.

Out of scope: a label that starts on one shown line and ends on a later one, as that of `€` does
when a line feed and `ab` follow. Such a label is drawn over several lines; the excerpt here is a
bare row of the margin instead. The fallback to the bare message is left out as well, since a report
that is written to memory is never refused.

Headline: `Report.locate_eq_some`, a located line holds the offset that it was looked up by.
-/

namespace Abacus.Report

/-! ## The line of an offset -/

/-- A line of a source. -/
structure Line where
  /-- The number of the line, counted from one. -/
  number : Nat
  /-- The offset of its first character. -/
  start : Nat
  /-- Its characters, with the terminator. -/
  chars : List Char
  deriving DecidableEq, Repr

/-- The offset behind a line. -/
def Line.stop (l : Line) : Nat := l.start + l.chars.length

/-- Find the line of an offset among the lines from the given number and start on. The end of the
text belongs to the last line. -/
def locateFrom (offset number start : Nat) : List (List Char) → Option Line
  | [] => none
  | [cs] => if offset ≤ start + cs.length then some ⟨number, start, cs⟩ else none
  | cs :: rest =>
    if offset < start + cs.length then some ⟨number, start, cs⟩
    else locateFrom offset (number + 1) (start + cs.length) rest

/-- The line of a text that an offset lies in; none if the offset is past the end of the text. -/
def locate (text : List Char) (offset : Nat) : Option Line :=
  locateFrom offset 1 0 (Text.shownLines text)

theorem locateFrom_eq_some {offset number start : Nat} {lines : List (List Char)} {l : Line}
    (h : locateFrom offset number start lines = some l) (hs : start ≤ offset) :
    l.start ≤ offset ∧ offset ≤ l.stop := by
  fun_induction locateFrom offset number start lines with
  | case1 => cases h
  | case2 number start cs hle =>
    cases h
    exact ⟨hs, hle⟩
  | case3 => cases h
  | case4 number start cs rest _ hlt =>
    cases h
    exact ⟨hs, Nat.le_of_lt hlt⟩
  | case5 number start cs rest _ hlt ih => exact ih h (by omega)

/-- **A located line holds its offset.** -/
theorem locate_eq_some {text : List Char} {offset : Nat} {l : Line}
    (h : locate text offset = some l) : l.start ≤ offset ∧ offset ≤ l.stop :=
  locateFrom_eq_some h (Nat.zero_le _)

/-! ## Columns -/

/-- The columns that the character at an index of its line takes. Tabs reach to the next multiple
of four, counted in characters; other white space takes one column. -/
def columns (index : Nat) (c : Char) : Nat :=
  if c = '\t' then (index / 4 + 1) * 4 - index
  else if Text.isBlank c then 1
  else Text.width c

/-- What is drawn for the character at an index: white space is drawn as spaces. -/
def drawn (index : Nat) (c : Char) : List Char :=
  if Text.isBlank c then List.replicate (columns index c) ' ' else [c]

/-- A marked part of a line, given by character indices. -/
structure Mark where
  first : Nat
  /-- Where the label is attached. -/
  middle : Nat
  /-- The index behind the part. -/
  last : Nat
  deriving DecidableEq, Repr

/-- A corner that fills `k` columns, with a stroke to the right of it. -/
def corner (c : Char) (k : Nat) : List Char :=
  if k = 0 then [] else c :: List.replicate (k - 1) '─'

/-- The marked part, underlined. `widths` are the columns of each character. -/
def underline (m : Mark) (widths : List Nat) : List Char :=
  (widths.mapIdx fun j k =>
    if j = m.middle then corner '┬' k
    else List.replicate k (if m.first ≤ j ∧ j < m.last then '─' else ' ')).flatten

/-- The stroke from the marked part to its label. -/
def pointer (m : Mark) (widths : List Nat) : List Char :=
  (widths.mapIdx fun j k =>
    if j = m.middle then corner '╰' k
    else List.replicate k (if m.middle < j then '─' else ' ')).flatten

/-- The columns of the characters up to one past the mark; there is one column for each index past
the end of the text. -/
def widths (m : Mark) (shown : List Char) : List Nat :=
  (shown.mapIdx columns ++ List.replicate (m.last + 2) 1).take (m.last + 2)

/-! ## The report -/

/-- The line of a fault and the rows under it, for the characters from `start` up to `stop`. `edge`
is the margin of rows without a line number. A label that ends behind the line has no place in it,
and a bare row of the margin is all that is drawn. So it is when the text ends with the line; where
a later line holds the end of the label, the rows drawn over both lines are left out. -/
def excerpt (edge : String) (l : Line) (start stop : Nat) (label : String) : List String :=
  if l.stop < stop then [edge ++ " "]
  else
    let shown := Text.trimEnd l.chars
    let mark : Mark := ⟨start - l.start, (start + stop) / 2 - l.start, stop - l.start⟩
    let ws := widths mark shown
    [" " ++ l.number.repr ++ " │ " ++ .ofList (shown.mapIdx drawn).flatten,
      edge ++ " " ++ .ofList (underline mark ws),
      edge ++ " " ++ .ofList (pointer mark ws) ++ " " ++ label]

/-- The lines of a report. If one end of the label has no line, the message is all. The excerpt is
that of the line on which the label starts, also where it ends on a later one. -/
def rows (text : List Char) (start stop : Nat) (message label : String) : List String :=
  ("Error: " ++ message) ::
    match locate text start, locate text (stop - 1) with
    | some l, some _ =>
      let digits := l.number.repr.length
      let edge := String.ofList (List.replicate (digits + 2) ' ') ++ "│"
      (String.ofList (List.replicate (digits + 2) ' ') ++ "╭─[<unknown>:" ++ l.number.repr ++ ":" ++
          (start - l.start + 1).repr ++ "]") ::
        edge :: excerpt edge l start stop label ++
        [String.ofList (List.replicate (digits + 2) '─') ++ "╯"]
    | _, _ => []

/-- The report of a fault in a source. The offsets of its span are taken as offsets into the
characters of the source. -/
def render (source : String) (e : ParseError) : String :=
  String.join ((rows source.toList e.span.start.toNat e.span.stop.toNat e.message e.label).map
    (· ++ "\n"))

end Abacus.Report
