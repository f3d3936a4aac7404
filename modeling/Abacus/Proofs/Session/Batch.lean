import Abacus.Proofs.Session.Interactive
import Abacus.Proofs.Source.Concatenation

/-!
# Batches and interactive sessions agree

A batch and an interactive session take the lines of a text apart in different ways: a batch takes
one carriage return off a line that ends with a line feed, a session all line feeds and carriage
returns at the end of a piece. What a session takes off more is blank, so both answer the same lines
with the same values, and find a fault in the same lines. Only the reports differ, as they show the
line: a report is drawn from the line that was answered.

Headlines:
* `respond_dropLineEnds`: what a session takes off a line changes neither its value nor whether it
  has a fault.
* `writtenTo_err_answers_eq_empty_iff`: there are no reports exactly if no line has a fault.
* `deliver_runLines`, `deliver_run_bare`: what the two of them write.
* `runLines_agrees_with_run`: the two of them compared.
-/

namespace Abacus

open Text (bytes pieces cutAfter dropLineEnds isBlankText)

/-! ## Answers to single lines -/

/-- The result for a line is the printed value of what it is read as. -/
theorem writtenTo_out_respond (source : String) :
    writtenTo .out (respond source false).writes =
      match Tree.readSource source with
      | .ok value => (evaluate value).print ++ "\n"
      | .error _ => "" := by
  unfold respond Tree.readSource
  cases Tree.parse source with
  | error e => rfl
  | ok tree => exact (writtenTo_cons_self .out _ []).trans String.append_empty

theorem parsed_respond (source : String) (showTree : Bool) :
    (respond source showTree).parsed =
      match Tree.readSource source with
      | .ok _ => true
      | .error _ => false := by
  unfold respond Tree.readSource
  cases Tree.parse source <;> rfl

/-- **There is a report on a line exactly if it has no syntax tree.** -/
theorem writtenTo_err_respond_eq_empty_iff (source : String) (showTree : Bool) :
    writtenTo .err (respond source showTree).writes = "" ↔
      (respond source showTree).parsed = true := by
  unfold respond
  cases Tree.parse source with
  | error e =>
    -- a report starts with the message of its fault
    have hreport : Report.render source e ≠ "" := by simp [Report.render, Report.rows]
    simpa [writtenTo] using hreport
  | ok tree => cases showTree <;> exact iff_of_true rfl rfl

/-- **The line feeds and carriage returns at the end of a line change neither its value nor whether
it has a fault.** -/
theorem respond_dropLineEnds (line : List Char) :
    writtenTo .out (respond (.ofList (dropLineEnds line)) false).writes =
        writtenTo .out (respond (.ofList line) false).writes ∧
      (respond (.ofList (dropLineEnds line)) false).parsed =
        (respond (.ofList line) false).parsed := by
  obtain ⟨tail, hline, htail⟩ := Text.exists_dropLineEnds_append line
  -- the lexer takes both of them for blanks
  have hread : Tree.readSource (.ofList (dropLineEnds line)) = Tree.readSource (.ofList line) := by
    conv => rhs; rw [hline, String.ofList_append]
    refine (Tree.readSource_append_blanks _ fun c hc => ?_).symm
    rcases htail c hc with rfl | rfl <;> rfl
  rw [writtenTo_out_respond, writtenTo_out_respond, parsed_respond, parsed_respond, hread]
  exact ⟨rfl, rfl⟩

/-! ## Answers to a number of lines -/

/-- The answers to some lines, without their syntax trees. -/
def answers (lines : List (List Char)) : List (Stream × String) :=
  lines.flatMap fun line => (respond (.ofList line) false).writes

theorem answers_cons (line : List Char) (lines : List (List Char)) :
    answers (line :: lines) = (respond (.ofList line) false).writes ++ answers lines := rfl

theorem writtenTo_out_answers_dropLineEnds (lines : List (List Char)) :
    writtenTo .out (answers (lines.map dropLineEnds)) = writtenTo .out (answers lines) := by
  rw [answers, answers, List.flatMap_map, writtenTo_flatMap, writtenTo_flatMap]
  exact congrArg String.join (List.map_congr_left fun line _ => (respond_dropLineEnds line).1)

/-- **There are no reports exactly if no line has a fault.** -/
theorem writtenTo_err_answers_eq_empty_iff (lines : List (List Char)) :
    writtenTo .err (answers lines) = "" ↔
      ∀ line ∈ lines, (respond (.ofList line) false).parsed = true := by
  induction lines with
  | nil => exact iff_of_true rfl nofun
  | cons line lines ih =>
    rw [answers_cons, writtenTo_append, String.append_eq_empty_iff,
      writtenTo_err_respond_eq_empty_iff, ih, List.forall_mem_cons]

theorem writtenTo_err_answers_dropLineEnds_eq_empty_iff (lines : List (List Char)) :
    writtenTo .err (answers (lines.map dropLineEnds)) = "" ↔ writtenTo .err (answers lines) = "" := by
  rw [writtenTo_err_answers_eq_empty_iff, writtenTo_err_answers_eq_empty_iff, List.forall_mem_map]
  exact forall₂_congr fun line _ => by rw [(respond_dropLineEnds line).2]

/-! ## Batches -/

/-- The lines of a text that a batch answers. -/
def answeredLines (text : String) : List (List Char) :=
  (Text.lines text.toList).filter fun line => !isBlankText line

/-- In a text without carriage returns, a session takes nothing off the lines of a batch. -/
theorem map_dropLineEnds_answeredLines_of_notMem {text : String} (hcr : '\r' ∉ text.toList) :
    (answeredLines text).map dropLineEnds = answeredLines text := by
  have hline : ∀ line ∈ answeredLines text, dropLineEnds line = line := fun line h =>
    Text.dropLineEnds_of_mem_lines hcr (List.mem_filter.1 h).1
  exact (List.map_congr_left hline).trans (List.map_id' _)

/-- A batch writes the answers to its lines. -/
theorem deliver_runLines (text : String) :
    (runLines text).deliver none none =
      (.holding (writtenTo .out (answers (answeredLines text)))
        (writtenTo .err (answers (answeredLines text))),
        .ok ((answeredLines text).all fun line => (respond (.ofList line) false).parsed)) := by
  rw [Transcript.deliver_eq_holding, Transcript.written, Transcript.written, runLines]
  dsimp only
  rw [List.flatMap_map, List.all_map]
  rfl

/-! ## Interactive sessions without a prompt -/

namespace Interactive

/-- Settings under which a session writes nothing but answers. -/
def bare : Interactive := ⟨"", false, false⟩

/-- The answers of a session are those to the texts that are not blank. -/
theorem flatMap_answer_bare (texts : List String) :
    texts.flatMap bare.answer =
      answers (((texts.map String.toList).filter fun text => !isBlankText text).map
        dropLineEnds) := by
  induction texts with
  | nil => rfl
  | cons text texts ih =>
    rw [List.flatMap_cons, ih, answer, List.map_cons, List.filter_cons]
    cases isBlankText text.toList <;> rfl

theorem answered_eq_length (texts : List String) :
    answered texts = ((texts.map String.toList).filter fun text => !isBlankText text).length := by
  rw [← List.countP_eq_length_filter, List.countP_map]
  rfl

theorem results_bare (texts : List String) :
    bare.results texts = writtenTo .out (texts.flatMap bare.answer) := by
  rw [writtenTo_flatMap, results]
  exact congrArg String.join (List.map_congr_left fun text _ => String.empty_append)

theorem reports_bare (texts : List String) :
    bare.reports texts = writtenTo .err (texts.flatMap bare.answer) :=
  (writtenTo_flatMap .err bare.answer texts).symm

/-- The pieces of a text that a session answers are the lines that a batch answers, up to what ends
them. -/
theorem map_dropLineEnds_answeredLines (text : String) :
    ((cutAfter (· == '\n') text.toList).filter fun piece => !isBlankText piece).map dropLineEnds =
      (answeredLines text).map dropLineEnds := by
  -- a batch asks whether the line is blank, a session whether it is without its end
  have hblank : (fun line => !isBlankText line) = (fun line => !isBlankText line) ∘ dropLineEnds :=
    funext fun line => congrArg not (Text.isBlankText_dropLineEnds line).symm
  rw [answeredLines, hblank, ← List.filter_map, ← List.filter_map, Text.map_dropLineEnds_lines]

/-- Without a prompt, a session writes the answers to the lines of a batch, and a line feed. -/
theorem deliver_run_bare (text : String) :
    (bare.run (bytes text)).deliver none none =
      (.holding (writtenTo .out (answers ((answeredLines text).map dropLineEnds)) ++ "\n")
        (writtenTo .err (answers ((answeredLines text).map dropLineEnds))),
        .ok (answeredLines text).length) := by
  obtain ⟨texts, hpieces, htexts⟩ := Text.exists_texts_of_pieces_bytes text
  have hanswers := flatMap_answer_bare texts
  have hcount := answered_eq_length texts
  rw [htexts, map_dropLineEnds_answeredLines] at hanswers
  rw [htexts, ← List.length_map (f := dropLineEnds), map_dropLineEnds_answeredLines,
    List.length_map] at hcount
  have hopening : bare.opening = "" := rfl
  have hprompt : bare.prompt = "" := rfl
  rw [bare.deliver_run_texts hpieces, results_bare, reports_bare, hanswers, hcount, hopening,
    hprompt, String.empty_append, String.append_empty]

end Interactive

/-! ## The two compared -/

/-- **A batch and an interactive session agree.** On every text both answer the same lines, up to the
line feeds and carriage returns at their ends, with the same results; the session adds a line feed.
All lines have a syntax tree exactly if the batch says so, if there are no reports of the batch, and
if there are none of the session. In a text without carriage returns the reports are the same. -/
theorem runLines_agrees_with_run (text : String) :
    ∃ ok : Bool,
      (runLines text).deliver none none =
        (.holding (writtenTo .out (answers (answeredLines text)))
          (writtenTo .err (answers (answeredLines text))), .ok ok) ∧
      (Interactive.bare.run (bytes text)).deliver none none =
        (.holding (writtenTo .out (answers (answeredLines text)) ++ "\n")
          (writtenTo .err (answers ((answeredLines text).map dropLineEnds))),
          .ok (answeredLines text).length) ∧
      writtenTo .out (answers ((answeredLines text).map dropLineEnds)) =
        writtenTo .out (answers (answeredLines text)) ∧
      (ok = true ↔
        ∀ line ∈ answeredLines text, ∃ tree, Tree.parse (.ofList line) = .ok tree) ∧
      (ok = true ↔ writtenTo .err (answers (answeredLines text)) = "") ∧
      (ok = true ↔ writtenTo .err (answers ((answeredLines text).map dropLineEnds)) = "") ∧
      ('\r' ∉ text.toList →
        writtenTo .err (answers ((answeredLines text).map dropLineEnds)) =
          writtenTo .err (answers (answeredLines text))) := by
  have hok : ((answeredLines text).all fun line => (respond (.ofList line) false).parsed) = true ↔
      ∀ line ∈ answeredLines text, (respond (.ofList line) false).parsed = true := List.all_eq_true
  have hparsed : (∀ line ∈ answeredLines text, (respond (.ofList line) false).parsed = true) ↔
      ∀ line ∈ answeredLines text, ∃ tree, Tree.parse (.ofList line) = .ok tree :=
    forall₂_congr fun line _ => respond_parsed_iff _ false
  have hout := writtenTo_out_answers_dropLineEnds (answeredLines text)
  have herr := writtenTo_err_answers_eq_empty_iff (answeredLines text)
  have hrun := Interactive.deliver_run_bare text
  rw [hout] at hrun
  refine ⟨_, deliver_runLines text, hrun, hout, hok.trans hparsed, hok.trans herr.symm, ?_, ?_⟩
  · rw [writtenTo_err_answers_dropLineEnds_eq_empty_iff]
    exact hok.trans herr.symm
  · intro hcr
    rw [map_dropLineEnds_answeredLines_of_notMem hcr]

end Abacus
