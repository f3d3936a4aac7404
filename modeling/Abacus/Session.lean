import Abacus.Evaluation
import Abacus.Report
import Abacus.Transcript
import Abacus.Tree.Dump
import Abacus.Value.Print

/-!
# Sessions

Lines of source are answered one by one: with the printed value of the line, or with a report of
its fault. A batch answers the lines of a text; an interactive session prompts for each line and
reads it from bytes. Blank lines are not answered.

Model of `respond`, `run_lines`, `write_tree`, `apply_flags` (`Interactive.applyFlags`) and `run` of
the interactive loop (`Interactive.run`). What they write is collected in a `Transcript`.

Out of scope: flushing after the prompt, which is taken to succeed, and what is logged.

Headlines: `respond_parsed_iff`, a line counts as parsed exactly if it has a syntax tree;
`Interactive.answerFrom_eq`, what an interactive session wrote before does not change what it
writes next.
-/

namespace Abacus

/-- The answer to a line. -/
structure Answer where
  writes : List (Stream × String)
  /-- Whether the line has a syntax tree. -/
  parsed : Bool

/-- Answer a line of source, showing its syntax tree first if asked to. -/
def respond (source : String) (showTree : Bool) : Answer :=
  match Tree.parse source with
  | .error e => ⟨[(.err, Report.render source e)], false⟩
  | .ok tree =>
    let result : Stream × String := (.out, (evaluate tree.read).print ++ "\n")
    ⟨if showTree then [(.out, tree.dump), result] else [result], true⟩

theorem respond_parsed_iff (source : String) (showTree : Bool) :
    (respond source showTree).parsed = true ↔ ∃ tree, Tree.parse source = .ok tree := by
  unfold respond
  split <;> simp [*]

/-- Show the syntax tree of a source without evaluating it. -/
def writeTree (source : String) : Transcript Bool :=
  match Tree.parse source with
  | .error e => ⟨[(.err, Report.render source e)], .ok false⟩
  | .ok tree => ⟨[(.out, tree.dump)], .ok true⟩

/-- The answer to a line as a whole session. -/
def respondOnce (source : String) (showTree : Bool) : Transcript Bool :=
  let answer := respond source showTree
  ⟨answer.writes, .ok answer.parsed⟩

/-- Answer each line of a text that is not blank. The outcome is whether all of them have a syntax
tree; lines after a fault are still answered. -/
def runLines (source : String) : Transcript Bool :=
  let answers := (Text.lines source.toList).filter (fun line => !Text.isBlankText line)
    |>.map fun line => respond (.ofList line) false
  ⟨answers.flatMap Answer.writes, .ok (answers.all Answer.parsed)⟩

/-! ## Interactive sessions -/

/-- How an interactive session presents itself. -/
structure Interactive where
  /-- Written before each line is read. -/
  prompt : String
  /-- Whether the session starts with a greeting. -/
  banner : Bool
  /-- Whether the syntax tree of each line is shown before its value. -/
  showTree : Bool
  deriving DecidableEq, Repr

namespace Interactive

/-- The usual settings. -/
def standard : Interactive := ⟨"lispy> ", true, false⟩

/-- The greeting. -/
def greeting : String := "Lispy version 0.0.0.1\nPress Ctrl+c to Exit.\n"

/-- Change the settings by a flag. -/
def applyFlag? (config : Interactive) (flag : String) : Option Interactive :=
  match flag with
  | "--ast" => some { config with showTree := true }
  | "--quiet" | "-q" => some { config with banner := false }
  | _ => none

/-- Change the settings by flags, up to the first that is unknown, which is given back. -/
def applyFlags (config : Interactive) : List String → Interactive × Option String
  | [] => (config, none)
  | flag :: flags =>
    match config.applyFlag? flag with
    | some config => applyFlags config flags
    | none => (config, some flag)

/-- The text of a line of bytes, without the line feeds and carriage returns at its end. -/
def decodeLine? (bytes : List UInt8) : Option (List Char) :=
  (String.fromUTF8? ⟨bytes.toArray⟩).map fun text =>
    (text.toList.reverse.dropWhile fun c => c = '\n' || c = '\r').reverse

/-- What is written after the prompt for a line, and how many answers that is. -/
def answerLine (config : Interactive) (line : List Char) : List (Stream × String) × Nat :=
  if Text.isBlankText line then ([], 0)
  else ((respond (.ofList line) config.showTree).writes, 1)

/-- Prompt for the next line of the input and answer it, until there is no line left. `writes` is
what has been written so far, last text first, and `answered` the number of answers given. -/
def answerFrom (config : Interactive) (input : List UInt8) (writes : List (Stream × String))
    (answered : Nat) : Transcript Nat :=
  let prompted := (.out, config.prompt) :: writes
  match input with
  | [] => ⟨((.out, "\n") :: prompted).reverse, .ok answered⟩
  | b :: bs =>
    match decodeLine? (Text.takeLine (b :: bs)).1 with
    | none => ⟨prompted.reverse, .error .invalidText⟩
    | some line =>
      let answer := config.answerLine line
      answerFrom config (Text.takeLine (b :: bs)).2 (answer.1.reverse ++ prompted)
        (answered + answer.2)
termination_by input.length
decreasing_by exact Text.length_takeLine_snd_lt (List.cons_ne_nil b bs)

/-- A whole interactive session. The outcome is the number of lines answered. -/
def run (config : Interactive) (input : List UInt8) : Transcript Nat :=
  config.answerFrom input (if config.banner then [(.out, greeting ++ "\n")] else []) 0

/-- What was written before stays in front, and the answers add up. -/
theorem answerFrom_eq (config : Interactive) (input : List UInt8)
    (writes : List (Stream × String)) (answered : Nat) :
    config.answerFrom input writes answered =
      ⟨writes.reverse ++ (config.answerFrom input [] 0).writes,
        (config.answerFrom input [] 0).outcome.map (answered + ·)⟩ := by
  suffices h : ∀ ws k, config.answerFrom input ws k =
      ⟨ws.reverse ++ (config.answerFrom input [] 0).writes,
        (config.answerFrom input [] 0).outcome.map (k + ·)⟩ from h writes answered
  induction input, writes, answered using Interactive.answerFrom.induct config with
  | case1 writes answered =>
    intro ws k
    simp [answerFrom, Except.map]
  | case2 writes answered b bs h =>
    intro ws k
    rw [answerFrom, answerFrom]
    simp [h, Except.map]
  | case3 writes answered prompted b bs line h answer ih =>
    intro ws k
    rw [answerFrom, answerFrom]
    simp only [h]
    rw [ih (_ ++ _ :: ws) _, ih (_ ++ [_]) _]
    cases (config.answerFrom (Text.takeLine (b :: bs)).2 [] 0).outcome <;>
      simp [Except.map, Nat.add_assoc]

end Interactive

end Abacus
