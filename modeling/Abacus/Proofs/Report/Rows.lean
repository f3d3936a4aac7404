import Abacus.Proofs.Text.Pieces
import Abacus.Report

/-!
# Rows of a report

A report is text, and its rows are found again as the lines of it: neither the message nor the label
nor what is drawn of the source holds an end of a line. One of the rows, the header, gives the number
of a line and a column. No other row starts like it, whatever characters the source has, and it gives
away both numbers.

Headlines:
* `cases_of_mem_rows`: what the rows of a report are.
* `header_inj`: a header gives away its line and its column.
* `header_mem_rows_iff`: when there is a header, and what it gives.
* `lines_render`: the lines of a report are its rows.
-/

namespace Abacus.Report

/-! ## The rows -/

/-- The row of a report that gives the location, for a line and a column. -/
def header (number column : Nat) : String :=
  String.ofList (List.replicate (number.repr.length + 2) ' ') ++ "╭─[<unknown>:" ++ number.repr ++
    ":" ++ column.repr ++ "]"

/-- The margin of rows without a line number, as wide as the one with this number. -/
def margin (number : Nat) : String :=
  String.ofList (List.replicate (number.repr.length + 2) ' ') ++ "│"

/-- The last row of a report. -/
def foot (number : Nat) : String :=
  String.ofList (List.replicate (number.repr.length + 2) '─') ++ "╯"

/-- **What the rows of a report are.** -/
theorem cases_of_mem_rows {text : List Char} {start stop : Nat} {message label row : String}
    (h : row ∈ rows text start stop message label) :
    row = "Error: " ++ message ∨ ∃ l k, locate text start = some l ∧
      locate text (stop - 1) = some k ∧
      (row = header l.number (start - l.start + 1) ∨ row = margin l.number ∨
        row ∈ excerpt (margin l.number) l start stop label ∨ row = foot l.number) := by
  rcases List.mem_cons.1 h with rfl | h
  · exact .inl rfl
  · split at h
    · next l k hl hk =>
      simp only [List.cons_append, List.mem_cons, List.mem_append, List.not_mem_nil, or_false] at h
      exact .inr ⟨l, k, hl, hk, h⟩
    · cases h

/-! ## Numbers in rows -/

theorem isDigit_of_mem_repr {n : Nat} {c : Char} (h : c ∈ n.repr.toList) : c.isDigit = true := by
  rw [Nat.toList_repr] at h
  exact Nat.isDigit_of_mem_toDigits (by decide) (by decide) h

theorem notMem_repr {c : Char} (hc : c.isDigit = false) (n : Nat) : c ∉ n.repr.toList := by
  intro hmem
  rw [isDigit_of_mem_repr hmem] at hc
  cases hc

theorem repr_injective {m n : Nat} (h : m.repr = n.repr) : m = n := by
  have hdigits := congrArg String.toList h
  rw [Nat.toList_repr, Nat.toList_repr] at hdigits
  calc
    m = Nat.ofDigitChars 10 (Nat.toDigits 10 m) 0 := Nat.ofDigitChars_ten_toDigits.symm
    _ = Nat.ofDigitChars 10 (Nat.toDigits 10 n) 0 := by rw [hdigits]
    _ = n := Nat.ofDigitChars_ten_toDigits

theorem dropWhile_header (number column : Nat) :
    (header number column).toList.dropWhile (· = ' ') =
      "╭─[<unknown>:".toList ++ (number.repr.toList ++ ':' :: (column.repr.toList ++ [']'])) := by
  unfold header
  simp only [String.toList_append, String.toList_ofList, List.append_assoc]
  rw [List.dropWhile_append_of_pos]
  · rfl
  · intro c hc
    simpa using (List.mem_replicate.1 hc).2

/-- **A header gives away its line and its column.** -/
theorem header_inj {m n c d : Nat} (h : header m c = header n d) : m = n ∧ c = d := by
  have hcolon : ':' ∉ c.repr.toList ++ [']'] := by
    rw [List.mem_append, not_or]
    exact ⟨notMem_repr rfl c, by decide⟩
  have hrest := congrArg (fun row => row.toList.dropWhile (· = ' ')) h
  rw [dropWhile_header, dropWhile_header, List.append_cancel_left_eq,
    List.append_cons_inj_of_notMem (notMem_repr rfl m) hcolon] at hrest
  obtain ⟨hnumber, -, hcolumn⟩ := hrest
  rw [List.append_cancel_right_eq] at hcolumn
  exact ⟨repr_injective (String.toList_inj.1 hnumber), repr_injective (String.toList_inj.1 hcolumn)⟩

/-! ## What rows start with -/

/-- The first character of a row that is not a space. -/
def lead (row : String) : Option Char := row.toList.find? (· != ' ')

theorem lead_append (a b : String) : lead (a ++ b) = (lead a).or (lead b) := by
  rw [lead, String.toList_append, List.find?_append]
  rfl

theorem lead_spaces (k : Nat) : lead (.ofList (List.replicate k ' ')) = none := by
  rw [lead, String.toList_ofList, List.find?_eq_none]
  intro c hc
  rw [(List.mem_replicate.1 hc).2]
  decide

theorem exists_lead_repr (n : Nat) : ∃ c, lead n.repr = some c ∧ c.isDigit = true := by
  cases hd : n.repr.toList with
  | nil =>
    rw [Nat.toList_repr] at hd
    exact absurd hd Nat.toDigits_ne_nil
  | cons c cs =>
    have hc : c.isDigit = true := isDigit_of_mem_repr (hd ▸ List.mem_cons_self)
    have hne : (c != ' ') = true := by
      rw [bne_iff_ne]
      rintro rfl
      cases hc
    refine ⟨c, ?_, hc⟩
    rw [lead, hd]
    exact List.find?_cons_of_pos hne

theorem lead_header (number column : Nat) : lead (header number column) = some '╭' := by
  simp only [header, lead_append, lead_spaces]
  rfl

theorem lead_margin (number : Nat) : lead (margin number) = some '│' := by
  rw [margin, lead_append, lead_spaces]
  rfl

/-- No row of an excerpt starts like a header. -/
theorem lead_of_mem_excerpt {edge : String} (hedge : lead edge = some '│') {l : Line}
    {start stop : Nat} {label row : String} (h : row ∈ excerpt edge l start stop label) :
    lead row ≠ some '╭' := by
  have hunder : ∀ tail : String, lead (edge ++ tail) ≠ some '╭' := by
    intro tail
    rw [lead_append, hedge, Option.some_or]
    decide
  unfold excerpt at h
  split at h
  · obtain rfl := List.mem_singleton.1 h
    exact hunder " "
  · simp only [List.mem_cons, List.not_mem_nil, or_false] at h
    rcases h with rfl | rfl | rfl
    · -- the line of the source comes behind its number, and so does a corner in it
      obtain ⟨c, hc, hdigit⟩ := exists_lead_repr l.number
      have hspace : lead " " = none := rfl
      rw [lead_append, lead_append, lead_append, hspace, hc, Option.none_or, Option.some_or,
        Option.some_or, ne_eq, Option.some_inj]
      rintro rfl
      cases hdigit
    · rw [String.append_assoc]
      exact hunder _
    · rw [String.append_assoc, String.append_assoc, String.append_assoc]
      exact hunder _

/-- A row that starts like a header is the header. -/
theorem exists_locate_of_mem_rows {text : List Char} {start stop : Nat} {message label row : String}
    (h : row ∈ rows text start stop message label) (hlead : lead row = some '╭') :
    ∃ l k, locate text start = some l ∧ locate text (stop - 1) = some k ∧
      row = header l.number (start - l.start + 1) := by
  obtain rfl | ⟨l, k, hl, hk, hrow | rfl | hrow | rfl⟩ := cases_of_mem_rows h
  · rw [lead_append, Option.or_of_isSome] at hlead
    · cases hlead
    · rfl
  · exact ⟨l, k, hl, hk, hrow⟩
  · rw [lead_margin] at hlead
    cases hlead
  · exact absurd hlead (lead_of_mem_excerpt (lead_margin l.number) hrow)
  · rw [foot, lead_append, lead, String.toList_ofList, List.replicate_succ] at hlead
    cases hlead

/-- **There is at most one header**, which gives the located line of the start and the column of the
start in it. There is one if the start and the last character of the label have lines. -/
theorem header_mem_rows_iff {text : List Char} {start stop number column : Nat}
    {message label : String} :
    header number column ∈ rows text start stop message label ↔
      ∃ l k, locate text start = some l ∧ locate text (stop - 1) = some k ∧
        number = l.number ∧ column = start - l.start + 1 := by
  constructor
  · intro h
    obtain ⟨l, k, hl, hk, hrow⟩ := exists_locate_of_mem_rows h (lead_header number column)
    exact ⟨l, k, hl, hk, header_inj hrow⟩
  · rintro ⟨l, k, hl, hk, rfl, rfl⟩
    rw [rows, hl, hk]
    exact List.mem_cons_of_mem _ List.mem_cons_self

/-! ## Rows are lines -/

/-- A text without line feeds and carriage returns. -/
def OneLine (row : String) : Prop := ∀ c ∈ row.toList, Text.isLineEnd c = false

instance (row : String) : Decidable (OneLine row) :=
  List.decidableBAll (fun c => Text.isLineEnd c = false) row.toList

theorem oneLine_append_iff {a b : String} : OneLine (a ++ b) ↔ OneLine a ∧ OneLine b := by
  rw [OneLine, String.toList_append, List.forall_mem_append]
  rfl

/-- A test that tells a character from both ends of lines. -/
theorem isLineEnd_eq_false_of {p : Char → Bool} {b : Bool} {c : Char} (hc : p c = b)
    (hfeed : p '\n' ≠ b) (hreturn : p '\r' ≠ b) : Text.isLineEnd c = false := by
  rw [Bool.eq_false_iff]
  intro hend
  simp only [Text.isLineEnd, Bool.or_eq_true, decide_eq_true_eq] at hend
  rcases hend with rfl | rfl
  · exact hfeed hc
  · exact hreturn hc

theorem oneLine_repr (n : Nat) : OneLine n.repr := fun _ hc =>
  isLineEnd_eq_false_of (isDigit_of_mem_repr hc) (by decide) (by decide)

section Drawn

variable {k : Nat} {c d : Char}

theorem isLineEnd_of_mem_replicate (hc : Text.isLineEnd c = false)
    (h : d ∈ List.replicate k c) : Text.isLineEnd d = false :=
  (List.mem_replicate.1 h).2 ▸ hc

theorem oneLine_replicate (k : Nat) (hc : Text.isLineEnd c = false) :
    OneLine (.ofList (List.replicate k c)) := by
  rw [OneLine, String.toList_ofList]
  exact fun _ => isLineEnd_of_mem_replicate hc

/-- Ends of lines are drawn as spaces. -/
theorem isLineEnd_of_mem_drawn {i : Nat} (h : d ∈ drawn i c) : Text.isLineEnd d = false := by
  unfold drawn at h
  split at h
  · exact isLineEnd_of_mem_replicate rfl h
  · next hblank =>
    obtain rfl := List.mem_singleton.1 h
    exact isLineEnd_eq_false_of (Bool.eq_false_iff.2 hblank) (by decide) (by decide)

/-- What marks a character: a corner at one place, and a stroke or a blank elsewhere. -/
theorem isLineEnd_of_mem_mark {p q : Prop} [Decidable p] [Decidable q]
    (hc : Text.isLineEnd c = false)
    (h : d ∈ if p then corner c k else List.replicate k (if q then '─' else ' ')) :
    Text.isLineEnd d = false := by
  split at h
  · unfold corner at h
    split at h
    · cases h
    · rcases List.mem_cons.1 h with rfl | h
      · exact hc
      · exact isLineEnd_of_mem_replicate rfl h
  · refine isLineEnd_of_mem_replicate ?_ h
    split <;> rfl

/-- What is drawn character by character stays in one line if the pieces do. -/
theorem oneLine_pieces {α : Type} {xs : List α} {f : Nat → α → List Char}
    (h : ∀ i x, ∀ c ∈ f i x, Text.isLineEnd c = false) :
    OneLine (.ofList (xs.mapIdx f).flatten) := by
  rw [OneLine, String.toList_ofList]
  intro c hc
  obtain ⟨piece, hpiece, hc⟩ := List.mem_flatten.1 hc
  obtain ⟨i, hi, rfl⟩ := List.mem_mapIdx.1 hpiece
  exact h i xs[i] c hc

end Drawn

theorem oneLine_header (number column : Nat) : OneLine (header number column) := by
  simp only [header, oneLine_append_iff]
  exact ⟨⟨⟨⟨⟨oneLine_replicate _ rfl, by decide⟩, oneLine_repr number⟩, by decide⟩,
    oneLine_repr column⟩, by decide⟩

theorem oneLine_margin (number : Nat) : OneLine (margin number) :=
  oneLine_append_iff.2 ⟨oneLine_replicate _ rfl, by decide⟩

theorem oneLine_foot (number : Nat) : OneLine (foot number) :=
  oneLine_append_iff.2 ⟨oneLine_replicate _ rfl, by decide⟩

theorem oneLine_excerpt {edge label : String} (hedge : OneLine edge) (hlabel : OneLine label)
    (l : Line) (start stop : Nat) : ∀ row ∈ excerpt edge l start stop label, OneLine row := by
  intro row h
  have hspace : OneLine " " := by decide
  have hbar : OneLine " │ " := by decide
  unfold excerpt at h
  split at h
  · obtain rfl := List.mem_singleton.1 h
    exact oneLine_append_iff.2 ⟨hedge, hspace⟩
  · simp only [List.mem_cons, List.not_mem_nil, or_false] at h
    rcases h with rfl | rfl | rfl <;> simp only [oneLine_append_iff]
    · exact ⟨⟨⟨hspace, oneLine_repr _⟩, hbar⟩, oneLine_pieces fun _ _ _ => isLineEnd_of_mem_drawn⟩
    · exact ⟨⟨hedge, hspace⟩, oneLine_pieces fun _ _ _ => isLineEnd_of_mem_mark rfl⟩
    · exact ⟨⟨⟨⟨hedge, hspace⟩, oneLine_pieces fun _ _ _ => isLineEnd_of_mem_mark rfl⟩, hspace⟩,
        hlabel⟩

/-- **Every row of a report is one line**, whatever the source is, if its message and its label are. -/
theorem oneLine_rows {message label : String} (hmessage : OneLine message) (hlabel : OneLine label)
    (text : List Char) (start stop : Nat) :
    ∀ row ∈ rows text start stop message label, OneLine row := by
  intro row h
  obtain rfl | ⟨l, -, -, -, rfl | rfl | hrow | rfl⟩ := cases_of_mem_rows h
  · exact oneLine_append_iff.2 ⟨by decide, hmessage⟩
  · exact oneLine_header l.number (start - l.start + 1)
  · exact oneLine_margin l.number
  · exact oneLine_excerpt (oneLine_margin l.number) hlabel l start stop row hrow
  · exact oneLine_foot l.number

theorem oneLine_label (e : ParseError) : OneLine e.label := by
  cases e <;> (rw [ParseError.label]; decide)

/-- A row with its line feed is read as the row. -/
theorem chomp_row {row : String} (h : OneLine row) :
    Text.chomp (row.toList ++ ['\n']) = row.toList := by
  rw [Text.chomp_concat]
  unfold Text.finishLine
  split
  · next cs hcs =>
    have hreturn : '\r' ∈ row.toList := by
      rw [← List.mem_reverse, hcs]
      exact List.mem_cons_self
    cases h _ hreturn
  · exact List.reverse_reverse _

/-- Rows that are put together are found again as lines. -/
theorem lines_join {rows : List String} (h : ∀ row ∈ rows, OneLine row) :
    Text.lines (String.join (rows.map (· ++ "\n"))).toList = rows.map String.toList := by
  rw [String.toList_join, List.flatMap_map, Text.lines_eq, Text.cutAfter_flatMap, List.map_map]
  · refine List.map_congr_left fun row hrow => ?_
    rw [Function.comp_apply, String.toList_append]
    exact chomp_row (h row hrow)
  · intro row hrow
    refine ⟨row.toList, '\n', String.toList_append, fun c hc => ?_, rfl⟩
    have hend := h row hrow c hc
    rw [beq_eq_false_iff_ne]
    rintro rfl
    cases hend

/-- **The lines of a report are its rows.** -/
theorem lines_render {source : String} {e : ParseError} (h : OneLine e.message) :
    Text.lines (render source e).toList =
      (rows source.toList e.span.start.toNat e.span.stop.toNat e.message e.label).map
        String.toList :=
  lines_join (oneLine_rows h (oneLine_label e) _ _ _)

end Abacus.Report
