import Abacus.Proofs.Report.Rows
import Abacus.Proofs.Text.ShownLines
import Abacus.Proofs.Tree.Faults

/-!
# Room for the label

Behind its message, a report gives the location of the fault and draws the label under the line that
it is in. There is room for the label as long as the span ends in that line. The end of the span
counts bytes and is taken for an offset into characters, so the span of a character that takes more
than one byte reaches over some of the characters behind it. Where too few of them are left, the
span ends past the source: by one offset, and the label is left out; by more, and the location is
left out with it, so that the message is all.

Headlines:
* `details_of_le_succ`, `details_of_eq_succ`, `details_of_lt`: the rows behind the message, for a
  source of one line.
* `label_not_infix`: no label is found in the rows that are left without one.
* `givesLocation_behind_iff`, `showsLabel_behind_iff`: how far the span may reach.
* `showsFault_iff_room`: which reports show their fault.
* `not_showsFault_at_end`: not all of them do.
-/

namespace Abacus.Report

/-! ## Behind the message -/

/-- The rows of a report behind its message. -/
def details (text : List Char) (start stop : Nat) (label : String) : List String :=
  (rows text start stop "" label).tail

/-- The text of a report behind the line of its message. -/
def behind (source : String) (e : ParseError) : String :=
  String.join ((details source.toList e.span.start.toNat e.span.stop.toNat e.label).map (· ++ "\n"))

/-- One of the lines of a text gives a location. -/
def GivesLocation (text : String) : Prop :=
  ∃ number column, (header number column).toList ∈ Text.lines text.toList

/-- One of the lines of a text has a label in it. -/
def ShowsLabel (label text : String) : Prop :=
  ∃ row ∈ Text.lines text.toList, label.toList <:+: row

/-- The report of a fault shows where it is: behind the line of the message it gives a location, and
it has the label in one of its lines. -/
def ShowsFault (source : String) (e : ParseError) : Prop :=
  ∃ rest, render source e = "Error: " ++ e.message ++ "\n" ++ rest ∧
    GivesLocation rest ∧ ShowsLabel e.label rest

theorem render_eq (source : String) (e : ParseError) :
    render source e = "Error: " ++ e.message ++ "\n" ++ behind source e := by
  have hrows : rows source.toList e.span.start.toNat e.span.stop.toNat e.message e.label =
      ("Error: " ++ e.message) ::
        details source.toList e.span.start.toNat e.span.stop.toNat e.label := rfl
  rw [render, hrows, List.map_cons, String.join_cons]
  rfl

theorem showsFault_iff {source : String} {e : ParseError} : ShowsFault source e ↔
    GivesLocation (behind source e) ∧ ShowsLabel e.label (behind source e) := by
  constructor
  · rintro ⟨rest, hrest, hshows⟩
    rw [render_eq, String.append_right_inj] at hrest
    exact hrest ▸ hshows
  · exact fun hshows => ⟨_, render_eq source e, hshows⟩

theorem lines_behind (source : String) (e : ParseError) :
    Text.lines (behind source e).toList =
      (details source.toList e.span.start.toNat e.span.stop.toNat e.label).map String.toList := by
  have hempty : OneLine "" := by decide
  exact lines_join fun row hrow =>
    oneLine_rows hempty (oneLine_label e) _ _ _ row (List.mem_of_mem_tail hrow)

theorem givesLocation_behind {source : String} {e : ParseError} :
    GivesLocation (behind source e) ↔ ∃ number column, header number column ∈
      details source.toList e.span.start.toNat e.span.stop.toNat e.label := by
  have hinj : Function.Injective String.toList := fun _ _ => String.toList_inj.1
  simp only [GivesLocation, lines_behind, List.mem_map_of_injective hinj]

theorem showsLabel_behind {source : String} {e : ParseError} :
    ShowsLabel e.label (behind source e) ↔
      ∃ row ∈ details source.toList e.span.start.toNat e.span.stop.toNat e.label,
        e.label.toList <:+: row.toList := by
  simp only [ShowsLabel, lines_behind, List.mem_map, exists_exists_and_eq_and]

/-! ## The rows of one line -/

/-- The rows behind the message of a fault in the first line, if there is no room for the label. -/
def unlabelled (column : Nat) : List String :=
  [header 1 column, margin 1, margin 1 ++ " ", foot 1]

section OneLine

variable {text : List Char} (hne : text ≠ []) (hline : ∀ c ∈ text, Text.isTerminator c = false)
  {start stop : Nat} {label : String}
include hne hline

theorem locate_of_forall (offset : Nat) :
    locate text offset = if offset ≤ text.length then some ⟨1, 0, text⟩ else none := by
  rw [locate, Text.shownLines_of_forall hne hline, locateFrom, Nat.zero_add]

/-- A span that ends one offset past the text or before still has a location. -/
theorem details_of_le_succ (hstart : start ≤ text.length) (hstop : stop ≤ text.length + 1) :
    details text start stop label = header 1 (start + 1) :: margin 1 ::
      (excerpt (margin 1) ⟨1, 0, text⟩ start stop label ++ [foot 1]) := by
  rw [details, rows, locate_of_forall hne hline, locate_of_forall hne hline, if_pos hstart,
    if_pos (Nat.sub_le_of_le_add hstop)]
  rfl

/-- A span that ends one offset past the text has no label. -/
theorem details_of_eq_succ (hstart : start ≤ text.length) (hstop : stop = text.length + 1) :
    details text start stop label = unlabelled (start + 1) := by
  have hlt : text.length < stop := by omega
  rw [details_of_le_succ hne hline hstart hstop.le, excerpt, Line.stop, Nat.zero_add, if_pos hlt]
  rfl

/-- A span that ends in the text has its label at the end of a row. -/
theorem exists_label_mem_details (hstart : start ≤ text.length) (hstop : stop ≤ text.length) :
    ∃ row ∈ details text start stop label, label.toList <:+ row.toList := by
  rw [details_of_le_succ hne hline hstart (Nat.le_succ_of_le hstop), excerpt, Line.stop,
    Nat.zero_add, if_neg (Nat.not_lt.2 hstop)]
  refine ⟨_, List.mem_cons_of_mem _ (List.mem_cons_of_mem _ (List.mem_append_left _
    (List.mem_cons_of_mem _ (List.mem_cons_of_mem _ List.mem_cons_self)))), ?_⟩
  rw [String.toList_append]
  exact List.suffix_append _ _

/-- A span that ends further on has nothing behind the message. -/
theorem details_of_lt (hstop : text.length + 1 < stop) : details text start stop label = [] := by
  rw [details, rows, locate_of_forall hne hline (stop - 1), if_neg (by omega)]
  split
  · next hk => cases hk
  · rfl

end OneLine

/-! ## Labels and frames -/

/-- What the rows around an excerpt are drawn with, apart from the numbers. -/
def frame : List Char := " │╭─╯[<unknown>:]".toList

theorem isDigit_or_of_mem_header {number column : Nat} {c : Char}
    (hc : c ∈ (header number column).toList) : c.isDigit = true ∨ c ∈ frame := by
  have hname : "╭─[<unknown>:".toList ⊆ frame := by decide
  have hcolon : ":".toList ⊆ frame := by decide
  have hbracket : "]".toList ⊆ frame := by decide
  simp only [header, String.toList_append, String.toList_ofList, List.mem_append] at hc
  rcases hc with ((((hc | hc) | hc) | hc) | hc) | hc
  · rw [(List.mem_replicate.1 hc).2]
    exact .inr (by decide)
  · exact .inr (hname hc)
  · exact .inl (isDigit_of_mem_repr hc)
  · exact .inr (hcolon hc)
  · exact .inl (isDigit_of_mem_repr hc)
  · exact .inr (hbracket hc)

/-- **Every label has a character that frames do not have.** -/
theorem exists_notMem_frame (e : ParseError) :
    ∃ c ∈ e.label.toList, c.isDigit = false ∧ c ∉ frame := by
  cases e <;> rw [ParseError.label]
  · exact ⟨'y', by decide⟩
  · exact ⟨'p', by decide⟩
  · exact ⟨'t', by decide⟩
  · exact ⟨'r', by decide⟩

/-- No label is found in the rows that are left without one. -/
theorem label_not_infix {e : ParseError} {column : Nat} {row : String}
    (hrow : row ∈ unlabelled column) : ¬e.label.toList <:+: row.toList := by
  have hframe : ∀ c ∈ row.toList, c.isDigit = true ∨ c ∈ frame := by
    have hmargin : (margin 1 ++ " ").toList ⊆ frame := by decide
    have hfoot : (foot 1).toList ⊆ frame := by decide
    simp only [unlabelled, List.mem_cons, List.not_mem_nil, or_false] at hrow
    rcases hrow with rfl | rfl | rfl | rfl
    · exact fun c => isDigit_or_of_mem_header
    · exact fun c hc => .inr (hmargin (by simp [hc]))
    · exact fun c hc => .inr (hmargin hc)
    · exact fun c hc => .inr (hfoot hc)
  intro hlabel
  obtain ⟨c, hc, hdigit, hnot⟩ := exists_notMem_frame e
  rcases hframe c (hlabel.subset hc) with h | h
  · rw [hdigit] at h
    cases h
  · exact hnot h

/-! ## How far the span may reach -/

section Room

variable {source : String} {e : ParseError} (hne : source.toList ≠ [])
  (hline : ∀ c ∈ source.toList, Text.isTerminator c = false)
  (hstart : e.span.start.toNat ≤ source.toList.length)
include hne hline hstart

/-- **There is nothing behind the message** if the span ends more than one offset past the
source. -/
theorem behind_eq_empty_iff :
    behind source e = "" ↔ source.toList.length + 1 < e.span.stop.toNat := by
  constructor
  · intro hempty
    by_contra hstop
    rw [behind, details_of_le_succ hne hline hstart (Nat.not_lt.1 hstop), List.map_cons,
      String.join_cons, String.append_eq_empty_iff, String.append_eq_empty_iff] at hempty
    exact absurd hempty.1.2 (by decide)
  · intro hstop
    rw [behind, details_of_lt hne hline hstop]
    rfl

/-- **There is a location** if the span ends at most one offset past the source. -/
theorem givesLocation_behind_iff :
    GivesLocation (behind source e) ↔ e.span.stop.toNat ≤ source.toList.length + 1 := by
  rw [givesLocation_behind]
  constructor
  · rintro ⟨number, column, hmem⟩
    by_contra hstop
    rw [details_of_lt hne hline (Nat.not_le.1 hstop)] at hmem
    cases hmem
  · intro hstop
    rw [details_of_le_succ hne hline hstart hstop]
    exact ⟨1, _, List.mem_cons_self⟩

/-- **There is room for the label** if the span ends in the source. -/
theorem showsLabel_behind_iff :
    ShowsLabel e.label (behind source e) ↔ e.span.stop.toNat ≤ source.toList.length := by
  rw [showsLabel_behind]
  constructor
  · rintro ⟨row, hmem, hlabel⟩
    by_contra hstop
    rcases Nat.lt_or_eq_of_le (Nat.succ_le_of_lt (Nat.not_le.1 hstop)) with hlt | heq
    · rw [details_of_lt hne hline hlt] at hmem
      cases hmem
    · rw [details_of_eq_succ hne hline hstart heq.symm] at hmem
      exact label_not_infix hmem hlabel
  · intro hstop
    obtain ⟨row, hmem, hlabel⟩ := exists_label_mem_details hne hline hstart hstop
    exact ⟨row, hmem, hlabel.isInfix⟩

/-- A report shows its fault if the span ends in the source. -/
theorem showsFault_iff_stop_le :
    ShowsFault source e ↔ e.span.stop.toNat ≤ source.toList.length := by
  rw [showsFault_iff, givesLocation_behind_iff hne hline hstart,
    showsLabel_behind_iff hne hline hstart]
  omega

end Room

/-- **A report shows its fault exactly if the span ends in the source**, for a source of one line.
The span covers one character, and its end counts the bytes of this character where the report
counts the characters behind it. So a fault that is ASCII is always shown, and any other one if it
is not too close to the end. If the span ends past the source, the label is missing; if it ends more
than one offset past it, so is the location, and the message is all. -/
theorem showsFault_iff_room (source : String)
    (hline : ∀ c ∈ source.toList, Text.isTerminator c = false) (e : ParseError)
    (he : Tree.parse source = .error e) :
    (ShowsFault source e ↔ e.span.stop.toNat ≤ source.toList.length) ∧
    render source e = "Error: " ++ e.message ++ "\n" ++ behind source e ∧
    (GivesLocation (behind source e) ↔ e.span.stop.toNat ≤ source.toList.length + 1) ∧
    (behind source e = "" ↔ source.toList.length + 1 < e.span.stop.toNat) ∧
    ∃ before c after, Tree.CoversAt source e before c after ∧
      (e.span.stop.toNat ≤ source.toList.length ↔
        c.utf8Size ≤ after.toList.length + 1 ∨ Span.limit ≤ source.toList.length) := by
  obtain ⟨before, c, after, hcovers⟩ := Tree.exists_coversAt he
  have hlength := hcovers.length_eq
  have hne : source.toList ≠ [] := List.ne_nil_of_length_pos (by omega)
  have hstart : e.span.start.toNat ≤ source.toList.length := by
    have := hcovers.start_eq
    omega
  exact ⟨showsFault_iff_stop_le hne hline hstart, render_eq source e,
    givesLocation_behind_iff hne hline hstart, behind_eq_empty_iff hne hline hstart,
    before, c, after, hcovers, hcovers.stop_le_length_iff⟩

/-- A sign of three bytes has room for its label if two characters stand behind it. -/
theorem showsFault_euro :
    (∀ c ∈ "(€ 1".toList, Text.isTerminator c = false) ∧
      Tree.parse "(€ 1" = .error (.unexpectedChar '€' (.ofRange 1 4)) ∧
      ShowsFault "(€ 1" (.unexpectedChar '€' (.ofRange 1 4)) := by
  have hall : "(€ 1".toList.all (fun c => !Text.isTerminator c) = true := by decide
  have hline : ∀ c ∈ "(€ 1".toList, Text.isTerminator c = false := by simpa using hall
  have hbefore : "(".toList.all Token.isLexical = true := by decide
  have he : Tree.parse ("(" ++ '€'.toString ++ " 1") =
      .error (.unexpectedChar '€' (.ofRange 1 4)) :=
    Tree.parse_of_stray (List.all_eq_true.1 hbefore) (by decide)
  exact ⟨hline, he, (showsFault_iff_room _ hline _ he).1.2 (by decide)⟩

/-- **Not every fault is shown.** A letter of two bytes at the end of a source has no label, and for
a sign of three bytes there the report is nothing but the message. -/
theorem not_showsFault_at_end :
    ((∀ c ∈ "é".toList, Text.isTerminator c = false) ∧
      Tree.parse "é" = .error (.unexpectedChar 'é' (.ofRange 0 2)) ∧
      ¬ShowsFault "é" (.unexpectedChar 'é' (.ofRange 0 2))) ∧
    ((∀ c ∈ "€".toList, Text.isTerminator c = false) ∧
      Tree.parse "€" = .error (.unexpectedChar '€' (.ofRange 0 3)) ∧
      ¬ShowsFault "€" (.unexpectedChar '€' (.ofRange 0 3)) ∧
      render "€" (.unexpectedChar '€' (.ofRange 0 3)) = "Error: unexpected character '€'\n") := by
  have hbefore : ∀ d ∈ "".toList, Token.isLexical d = true := fun d hd => by cases hd
  have hletter : ∀ c ∈ "é".toList, Text.isTerminator c = false :=
    List.forall_mem_singleton.2 (by decide)
  have hsign : ∀ c ∈ "€".toList, Text.isTerminator c = false :=
    List.forall_mem_singleton.2 (by decide)
  have heletter : Tree.parse ("" ++ 'é'.toString ++ "") =
      .error (.unexpectedChar 'é' (.ofRange 0 2)) := Tree.parse_of_stray hbefore (by decide)
  have hesign : Tree.parse ("" ++ '€'.toString ++ "") =
      .error (.unexpectedChar '€' (.ofRange 0 3)) := Tree.parse_of_stray hbefore (by decide)
  refine ⟨⟨hletter, heletter, fun h => ?_⟩, hsign, hesign, fun h => ?_, ?_⟩
  · rw [showsFault_iff_stop_le (by decide) hletter (by decide)] at h
    exact absurd h (by decide)
  · rw [showsFault_iff_stop_le (by decide) hsign (by decide)] at h
    exact absurd h (by decide)
  · rw [render_eq, (behind_eq_empty_iff (by decide) hsign (by decide)).2 (by decide)]
    rfl

end Abacus.Report
