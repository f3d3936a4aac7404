import Abacus.Text.Lines

/-!
# Lines and columns

Where a character stands when a text is shown: the number of its line and its column in it, both
counted from one. They are counted here character by character, without cutting the text: each
character that ends a line takes the count to the first column of the next line, and every other
one takes it one column further. A carriage return with a line feed directly behind it ends no line,
as the line feed will.

Headlines:
* `place_add`: along a line the columns go up one by one.
* `breaks_shownLines`: the shown lines end where the count says, and nowhere else.
* `shownLines_of_forall`: a text without terminators is one line.
* `place_shownLines`: the count gives the line and the column of each character.
-/

namespace Abacus.Text

/-! ## Counting -/

/-- Whether a shown line ends with the character at an index. -/
def endsLine (text : List Char) (i : Nat) : Bool :=
  match text[i]? with
  | some c => isTerminator c && !(c == '\r' && text[i + 1]? == some '\n')
  | none => false

/-- The number of the line of the character at an index, and its column in this line. -/
def place (text : List Char) : Nat → Nat × Nat
  | 0 => (1, 1)
  | i + 1 =>
    if endsLine text i then ((place text i).1 + 1, 1) else ((place text i).1, (place text i).2 + 1)

/-- **Along a line the columns go up one by one.** -/
theorem place_add {text : List Char} {i : Nat} {number column : Nat}
    (h : place text i = (number, column)) {k : Nat}
    (hk : ∀ j < k, endsLine text (i + j) = false) : place text (i + k) = (number, column + k) := by
  induction k with
  | zero => exact h
  | succ k ih =>
    have hlast := hk k (Nat.lt_succ_self k)
    rw [← Nat.add_assoc, place, hlast, ih fun j hj => hk j (Nat.lt_succ_of_lt hj)]
    rfl

/-- Behind a character that ends a line, the next line starts. -/
theorem place_succ {text : List Char} {i : Nat} (h : endsLine text i = true) :
    place text (i + 1) = ((place text i).1 + 1, 1) := by
  rw [place, h]
  rfl

/-! ## Where lines end -/

/-- A text, from an index on, cut into lines: none is empty, a line ends inside of none, and all but
the last one are ended. -/
inductive Breaks (text : List Char) : Nat → List (List Char) → Prop
  | nil {start : Nat} (hstop : start = text.length) : Breaks text start []
  | last {start : Nat} {line : List Char} (hne : line ≠ [])
      (hin : ∀ j < line.length, endsLine text (start + j) = false)
      (hstop : start + line.length = text.length) : Breaks text start [line]
  | line {start : Nat} {body : List Char} {c : Char} {rest : List (List Char)}
      (hin : ∀ j < body.length, endsLine text (start + j) = false)
      (hend : endsLine text (start + body.length) = true)
      (hrest : Breaks text (start + body.length + 1) rest) :
      Breaks text start ((body ++ [c]) :: rest)

/-- Whether a line ends depends on the character and on the next one. -/
theorem endsLine_behind {text pre current post : List Char} {c : Char}
    (htext : text = pre ++ current.reverse ++ c :: post) :
    endsLine text (pre.length + current.length) =
      (isTerminator c && !(c == '\r' && post.head? == some '\n')) := by
  have hhere : text[pre.length + current.length]? = some c := by simp [htext]
  have hnext : text[pre.length + current.length + 1]? = post.head? := by
    rw [htext, List.getElem?_append_right (by simp [Nat.add_assoc]), List.length_append,
      List.length_reverse, Nat.add_sub_cancel_left, List.getElem?_cons_succ, List.head?_eq_getElem?]
  rw [endsLine, hhere, hnext]

/-- The lines of the rest of a text, the first of which has been begun behind `pre`. -/
theorem breaks_shownFrom {text pre rest current : List Char} {before : List (List Char)}
    (htext : text = pre ++ current.reverse ++ rest)
    (hin : ∀ j < current.length, endsLine text (pre.length + j) = false) :
    ∃ lines, shownFrom rest current before = before.reverse ++ lines ∧
      Breaks text pre.length lines := by
  fun_induction shownFrom rest current before generalizing pre with
  | case1 before => exact ⟨[], by simp, .nil (by simp [htext])⟩
  | case2 current before hne =>
    refine ⟨[current.reverse], by simp, .last ?_ ?_ ?_⟩
    · simpa using hne
    · simpa using hin
    · simp [htext]
  | case3 cs current before ih =>
    -- the carriage return ends no line, and the line feed ends this one
    have hreturn : endsLine text (pre.length + current.length) = false := endsLine_behind htext
    have hsplit : text = pre ++ ('\r' :: current).reverse ++ '\n' :: cs := by simp [htext]
    have hfeed : endsLine text (pre.length + (current.length + 1)) = true := endsLine_behind hsplit
    have hbehind : text = (pre ++ current.reverse ++ ['\r', '\n']) ++ [].reverse ++ cs := by
      simp [htext]
    obtain ⟨lines, hlines, hrest⟩ := ih hbehind fun j hj => absurd hj j.not_lt_zero
    refine ⟨(current.reverse ++ ['\r'] ++ ['\n']) :: lines, hlines.trans (by simp), .line ?_ ?_ ?_⟩
    · simpa using Nat.forall_lt_succ_right.2 ⟨hin, hreturn⟩
    · simpa using hfeed
    · simpa [Nat.add_assoc] using hrest
  | case4 c cs current before hcrlf hterm ih =>
    have hnext : (c == '\r' && cs.head? == some '\n') = false := by
      rw [Bool.eq_false_iff, ne_eq, Bool.and_eq_true, beq_iff_eq, beq_iff_eq]
      rintro ⟨rfl, hhead⟩
      obtain ⟨ds, rfl⟩ := List.head?_eq_some_iff.1 hhead
      exact hcrlf ds rfl rfl
    have hend : endsLine text (pre.length + current.length) = true := by
      rw [endsLine_behind htext, hterm, hnext]
      rfl
    have hbehind : text = (pre ++ current.reverse ++ [c]) ++ [].reverse ++ cs := by simp [htext]
    obtain ⟨lines, hlines, hrest⟩ := ih hbehind fun j hj => absurd hj j.not_lt_zero
    refine ⟨(current.reverse ++ [c]) :: lines, hlines.trans (by simp), .line ?_ ?_ ?_⟩
    · simpa using hin
    · simpa using hend
    · simpa [Nat.add_assoc] using hrest
  | case5 c cs current before hcrlf hterm ih =>
    have hend : endsLine text (pre.length + current.length) = false := by
      rw [endsLine_behind htext, Bool.eq_false_iff.2 hterm]
      rfl
    exact ih (by simp [htext]) (by simpa using Nat.forall_lt_succ_right.2 ⟨hin, hend⟩)

/-- **Shown lines end where the count says, and nowhere else.** -/
theorem breaks_shownLines (text : List Char) : Breaks text 0 (shownLines text) := by
  have htext : text = [] ++ [].reverse ++ text := rfl
  obtain ⟨lines, hlines, hbreaks⟩ : ∃ lines, shownFrom text [] [] = [] ++ lines ∧
      Breaks text 0 lines := breaks_shownFrom htext fun j hj => absurd hj j.not_lt_zero
  rw [shownLines, hlines]
  exact hbreaks

/-- **A text without terminators is one line**, unless it is empty. -/
theorem shownLines_of_forall {text : List Char} (hne : text ≠ [])
    (h : ∀ c ∈ text, isTerminator c = false) : shownLines text = [text] := by
  have hends : ∀ i, endsLine text i = false := by
    intro i
    unfold endsLine
    split
    · next c hc => rw [h c (List.mem_of_getElem? hc), Bool.false_and]
    · rfl
  have hbreaks := breaks_shownLines text
  have hflat := flatten_shownLines text
  generalize shownLines text = lines at hbreaks hflat ⊢
  cases hbreaks with
  | nil => exact absurd hflat.symm hne
  | last => rw [← hflat, List.flatten_singleton]
  | line _ hend _ =>
    rw [hends] at hend
    cases hend

/-! ## The place of a character -/

namespace Breaks

variable {text : List Char} {start : Nat}

/-- Only the last character of a line can end it. -/
theorem endsLine_of_lt {line : List Char} {rest : List (List Char)}
    (h : Breaks text start (line :: rest)) {j : Nat} (hj : j + 1 < line.length) :
    endsLine text (start + j) = false := by
  cases h with
  | last _ hin _ => exact hin j (by omega)
  | line hin _ _ =>
    rw [List.length_append, List.length_singleton] at hj
    exact hin j (by omega)

/-- Behind a line the next one starts. -/
theorem tail {line : List Char} {rest : List (List Char)} (h : Breaks text start (line :: rest))
    (hrest : rest ≠ []) {number : Nat} (hstart : place text start = (number, 1)) :
    Breaks text (start + line.length) rest ∧
      place text (start + line.length) = (number + 1, 1) := by
  cases h with
  | last => exact absurd rfl hrest
  | @line _ body c _ hin hend hnext =>
    rw [List.length_append, List.length_singleton, ← Nat.add_assoc, place_succ hend,
      place_add hstart hin]
    exact ⟨hnext, rfl⟩

/-- Behind some whole lines the next one starts. -/
theorem append {front rest : List (List Char)} (h : Breaks text start (front ++ rest))
    (hrest : rest ≠ []) {number : Nat} (hstart : place text start = (number, 1)) :
    Breaks text (start + front.flatten.length) rest ∧
      place text (start + front.flatten.length) = (number + front.length, 1) := by
  induction front generalizing start number with
  | nil => exact ⟨h, hstart⟩
  | cons line front ih =>
    obtain ⟨hbreaks, hplace⟩ := h.tail (List.append_ne_nil_of_right_ne_nil front hrest) hstart
    rw [List.flatten_cons, List.length_append, List.length_cons, ← Nat.add_assoc,
      Nat.add_comm front.length, ← Nat.add_assoc]
    exact ih hbreaks hplace

end Breaks

/-- **The place of a character** is the number of its line among the shown lines and its column in
this line. -/
theorem place_shownLines {text line : List Char} {front back : List (List Char)}
    (h : shownLines text = front ++ line :: back) {j : Nat} (hj : j < line.length) :
    place text (front.flatten.length + j) = (front.length + 1, j + 1) := by
  have hfirst : place text 0 = (1, 1) := rfl
  obtain ⟨hbreaks, hstart⟩ :=
    (h ▸ breaks_shownLines text).append (List.cons_ne_nil line back) hfirst
  rw [Nat.zero_add] at hbreaks hstart
  rw [place_add hstart fun i hi => hbreaks.endsLine_of_lt (by omega), Nat.add_comm 1, Nat.add_comm 1]

end Abacus.Text
