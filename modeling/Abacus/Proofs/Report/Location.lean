import Abacus.Proofs.Report.Rows
import Abacus.Proofs.Text.ShownLines
import Abacus.Proofs.Tree.Faults

/-!
# The location of a fault

The span of a fault counts bytes, and a report takes its ends for offsets into the characters of the
source. For the start of a fault this comes to the same, because nothing but ASCII stands before it.
So the header of a report gives the line and the column of the character that the fault tells of,
however the lines of the source end. The end of a span is not safe in this way, but it has no part in
the header: it only decides whether there is one.

Headlines:
* `exists_locate_iff`: which offsets have a line.
* `place_of_locate`: the located line of an offset, and the place of the character in it.
* `oneLine_message`: the message of a fault is one line.
* `header_locates_fault`: a header in the lines of a report is the right one.
-/

namespace Abacus.Report

/-! ## The line of an offset -/

/-- A line that is found is one of the lines, at its own number and start. It reaches past the offset,
unless it is the last one. -/
theorem exists_append_of_locateFrom {offset number start : Nat} {lines : List (List Char)} {l : Line}
    (h : locateFrom offset number start lines = some l) :
    ∃ front back, lines = front ++ l.chars :: back ∧ l.number = number + front.length ∧
      l.start = start + front.flatten.length ∧ (offset < l.stop ∨ back = []) := by
  fun_induction locateFrom offset number start lines with
  | case1 => cases h
  | case2 number start cs _ =>
    cases h
    exact ⟨[], [], rfl, rfl, rfl, .inr rfl⟩
  | case3 => cases h
  | case4 number start cs rest _ hlt =>
    cases h
    exact ⟨[], rest, rfl, rfl, rfl, .inl hlt⟩
  | case5 number start cs rest _ _ ih =>
    obtain ⟨front, back, hlines, hnumber, hstart, hback⟩ := ih h
    refine ⟨cs :: front, back, by rw [hlines, List.cons_append], ?_, ?_, hback⟩
    · rw [hnumber, List.length_cons]
      omega
    · rw [hstart, List.flatten_cons, List.length_append]
      omega

/-- The end of the text is the last offset with a line. -/
theorem exists_locateFrom_iff {offset number start : Nat} {lines : List (List Char)}
    (hne : lines ≠ []) : (∃ l, locateFrom offset number start lines = some l) ↔
      offset ≤ start + lines.flatten.length := by
  fun_induction locateFrom offset number start lines with
  | case1 => exact absurd rfl hne
  | case2 number start cs hle => simpa using hle
  | case3 number start cs hle => simpa using hle
  | case4 number start cs rest _ hlt =>
    rw [List.flatten_cons, List.length_append]
    exact iff_of_true ⟨_, rfl⟩ (by omega)
  | case5 number start cs rest hrest _ ih =>
    rw [ih hrest, List.flatten_cons, List.length_append, Nat.add_assoc]

/-- **Every offset up to the end of a text has a line**, unless the text is empty. -/
theorem exists_locate_iff {text : List Char} (hne : text ≠ []) {offset : Nat} :
    (∃ l, locate text offset = some l) ↔ offset ≤ text.length := by
  have hlines : Text.shownLines text ≠ [] := by
    intro h
    have htext := Text.flatten_shownLines text
    rw [h] at htext
    exact hne htext.symm
  have hiff := @exists_locateFrom_iff offset 1 0 _ hlines
  rw [Text.flatten_shownLines, Nat.zero_add] at hiff
  exact hiff

/-- **The line of a character of a text**, and the place of the character in it. -/
theorem place_of_locate {text : List Char} {offset : Nat} {l : Line}
    (h : locate text offset = some l) (ho : offset < text.length) :
    Text.place text offset = (l.number, offset - l.start + 1) ∧
      (Text.shownLines text)[l.number - 1]? = some l.chars ∧
      l.chars[offset - l.start]? = text[offset]? := by
  obtain ⟨hle, hstop⟩ := locate_eq_some h
  obtain ⟨front, back, hlines, hnumber, hstart, hback⟩ := exists_append_of_locateFrom h
  rw [Nat.zero_add] at hstart
  have htext : text = front.flatten ++ (l.chars ++ back.flatten) := by
    rw [← Text.flatten_shownLines text, hlines, List.flatten_append, List.flatten_cons]
  -- the end of the text is no character of it
  have hlt : offset - l.start < l.chars.length := by
    rw [Line.stop] at hstop hback
    rcases hback with hback | rfl
    · omega
    · rw [htext, List.flatten_nil, List.append_nil, List.length_append] at ho
      omega
  have hsum : front.flatten.length + (offset - l.start) = offset := by omega
  have hplace := Text.place_shownLines hlines hlt
  rw [hsum] at hplace
  refine ⟨?_, ?_, ?_⟩
  · rw [hplace, hnumber, Nat.add_comm 1]
  · rw [hlines, hnumber, Nat.add_sub_cancel_left]
    simp
  · conv => rhs; rw [htext, ← hsum]
    rw [List.getElem?_append_right (Nat.le_add_right _ _), Nat.add_sub_cancel_left,
      List.getElem?_append_left hlt]

/-! ## The header of a fault -/

/-- A character that is no blank stays in one line, in quotes too. -/
theorem oneLine_quote {c : Char} (h : Token.isBlank c = false) : OneLine (ParseError.quote c) := by
  have hend : Text.isLineEnd c = false := isLineEnd_eq_false_of h (by decide) (by decide)
  have hchar : OneLine c.toString := by
    rw [OneLine, Char.toString_eq_singleton, String.toList_singleton]
    exact List.forall_mem_singleton.2 hend
  exact oneLine_append_iff.2 ⟨oneLine_append_iff.2 ⟨by decide, hchar⟩, by decide⟩

/-- **A message is one line** if no character that it names is a blank. -/
theorem oneLine_message {e : ParseError} (h : ∀ c ∈ e.named, Token.isBlank c = false) :
    OneLine e.message := by
  cases e with
  | unexpectedChar | unclosedDelimiter | unmatchedClose =>
    rw [ParseError.named, List.forall_mem_singleton] at h
    unfold ParseError.message
    exact oneLine_append_iff.2 ⟨by decide, oneLine_quote h⟩
  | mismatchedClose =>
    rw [ParseError.named, List.forall_mem_cons, List.forall_mem_singleton] at h
    unfold ParseError.message
    simp only [oneLine_append_iff]
    exact ⟨⟨⟨by decide, oneLine_quote h.1⟩, by decide⟩, oneLine_quote h.2⟩

/-- The header among the lines of a report. -/
theorem header_mem_lines_iff {source : String} {e : ParseError} (h : OneLine e.message)
    {number column : Nat} :
    (header number column).toList ∈ Text.lines (render source e).toList ↔
      ∃ l k, locate source.toList e.span.start.toNat = some l ∧
        locate source.toList (e.span.stop.toNat - 1) = some k ∧
        number = l.number ∧ column = e.span.start.toNat - l.start + 1 := by
  have hinj : Function.Injective String.toList := fun _ _ => String.toList_inj.1
  rw [lines_render h, List.mem_map_of_injective hinj]
  exact header_mem_rows_iff

/-- **A header in the lines of a report gives the place of the fault.** What stands before a fault is
ASCII, so that the fault starts at the same offset in bytes and in characters. If one of the lines of
its report is a header, then this gives the number of the line and the column of the character that
the fault tells of, whether or not the label fits in that line. There is a header unless the span
reaches more than one offset behind the last character. -/
theorem header_locates_fault (source : String) (hl : source.utf8ByteSize ≤ Span.limit)
    (e : ParseError) (he : Tree.parse source = .error e) :
    (∃ before after : String, source = before ++ e.character.toString ++ after ∧
      (∀ c ∈ before.toList, c.toNat < 128) ∧
      e.span.start.toNat = before.utf8ByteSize ∧
      e.span.start.toNat = before.toList.length) ∧
    (∀ number column, (header number column).toList ∈ Text.lines (render source e).toList →
      (number, column) = Text.place source.toList e.span.start.toNat ∧
      ∃ cs, (Text.shownLines source.toList)[number - 1]? = some cs ∧
        cs[column - 1]? = some e.character) ∧
    ((∃ number column, (header number column).toList ∈ Text.lines (render source e).toList) ↔
      e.span.stop.toNat ≤ source.toList.length + 1) := by
  obtain ⟨before, after, hfault⟩ := Tree.exists_faultAt hl he
  have hmessage : OneLine e.message := oneLine_message fun c => Tree.isBlank_of_mem_named hl he
  have hchar := hfault.getElem?_start
  obtain ⟨hlt, -⟩ := List.getElem?_eq_some_iff.1 hchar
  have hne : source.toList ≠ [] := List.ne_nil_of_length_pos (by omega)
  simp only [header_mem_lines_iff hmessage]
  refine ⟨⟨before, after, hfault.source_eq, hfault.ascii, hfault.start, hfault.start_eq_length⟩,
    ?_, ?_⟩
  · rintro number column ⟨l, -, hlocate, -, rfl, rfl⟩
    obtain ⟨hplace, hline, hcolumn⟩ := place_of_locate hlocate hlt
    refine ⟨hplace.symm, l.chars, hline, ?_⟩
    rw [Nat.add_sub_cancel, hcolumn, hchar]
  · rw [← Nat.sub_le_iff_le_add, ← exists_locate_iff hne]
    constructor
    · rintro ⟨-, -, -, k, -, hk, -⟩
      exact ⟨k, hk⟩
    · rintro ⟨k, hk⟩
      obtain ⟨l, hl⟩ := (exists_locate_iff hne).2 (Nat.le_of_lt hlt)
      exact ⟨_, _, l, k, hl, hk, rfl, rfl⟩

/-- The header for a letter behind a form feed and a carriage return with its line feed, each of which
ends a line. -/
theorem header_behind_form_feed :
    "(+ 1\x0c(\r\n λ)".utf8ByteSize ≤ Span.limit ∧
      Tree.parse "(+ 1\x0c(\r\n λ)" = .error (.unexpectedChar 'λ' (.ofRange 9 11)) ∧
      (header 3 2).toList ∈
        Text.lines (render "(+ 1\x0c(\r\n λ)" (.unexpectedChar 'λ' (.ofRange 9 11))).toList ∧
      (3, 2) = Text.place "(+ 1\x0c(\r\n λ)".toList 9 ∧
      ∃ cs, (Text.shownLines "(+ 1\x0c(\r\n λ)".toList)[2]? = some cs ∧ cs[1]? = some 'λ' := by
  have hl : "(+ 1\x0c(\r\n λ)".utf8ByteSize ≤ Span.limit := by decide
  have hbefore : "(+ 1\x0c(\r\n ".toList.all Token.isLexical = true := by decide
  have hstray : Token.FirstStray "(+ 1\x0c(\r\n λ)" 'λ' (.ofRange 9 11) :=
    ⟨"(+ 1\x0c(\r\n ", ")", by decide,
      fun c hc => Token.isLexical_iff.1 (List.all_eq_true.1 hbefore c hc), by decide, by decide,
      by decide⟩
  have he := Tree.parse_eq_error_iff.2 (.inl hstray.lex_eq)
  have hheader : (header 3 2).toList ∈
      Text.lines (render "(+ 1\x0c(\r\n λ)" (.unexpectedChar 'λ' (.ofRange 9 11))).toList := by
    rw [lines_render (oneLine_message fun c => Tree.isBlank_of_mem_named hl he)]
    exact List.mem_map_of_mem (by decide)
  exact ⟨hl, he, hheader, (header_locates_fault _ hl _ he).2.1 3 2 hheader⟩

end Abacus.Report
