import Abacus.Proofs.Session.Batch
import Abacus.Proofs.Session.Delivery
import Abacus.Proofs.Tree.Nodes

/-!
# Sessions write by write

A transcript gathers what belongs together into one text: a printed value, a dump, a line. The
programs here write to the sinks themselves, piece by piece: brackets, cells and the spaces between
them, indentation, tags and contents. They break off as soon as a piece has no room. All the same they
do what the transcripts say, since a text may be written in parts. So what is known of delivered
transcripts is known of them, for every place at which a sink may fill up.

Headlines:
* `Puts.bind`: a text may be written in parts, whatever follows.
* `puts_value`, `puts_tree`: values and trees are written as they are printed and dumped.
* `sends_respond`, `sends_writeTree`, `sends_runLines`, `sends_interact`: each way to answer does what
  its transcript says.
* `sessions_stop_when_full`: each of them leaves exact prefixes in sinks that fill up.
-/

namespace Abacus

/-- A program that writes to the sinks, and breaks off if one has no room. -/
abbrev Writing := ExceptT StreamError (StateM Sinks)

namespace Writing

variable {α β : Type}

/-- Run a program on some sinks. -/
def on (call : Writing α) (s : Sinks) : Except StreamError α × Sinks := call.run.run s

/-- Write a text. -/
def put (stream : Stream) (text : String) : Writing Unit := fun s =>
  match s.write stream text with
  | (s, true) => (.ok (), s)
  | (s, false) => (.error .full, s)

/-! ## Values and trees -/

mutual

/-- Write a value. -/
def putValue : Value → Writing Unit
  | .number n => put .out n.toText
  | .error message => do
    put .out Value.errorMark
    put .out message
  | .symbol name => put .out name
  | .sexpr cells => do
    put .out "("
    putCells true cells
    put .out ")"
  | .qexpr cells => do
    put .out "\x7b"
    putCells true cells
    put .out "\x7d"

/-- Write cells, each but the first one of a list behind a space. -/
def putCells (first : Bool) : List Value → Writing Unit
  | [] => pure ()
  | cell :: cells => do
    unless first do put .out " "
    putValue cell
    putCells false cells

end

/-- Write spaces, one by one. -/
def putSpaces : Nat → Writing Unit
  | 0 => pure ()
  | n + 1 => do
    put .out " "
    putSpaces n

mutual

/-- Write the dump of a node and of everything below it. -/
def putTree (depth : Nat) : ParseTree → Writing Unit
  | ⟨tag, contents, _, children⟩ => do
    putSpaces (2 * depth)
    put .out tag
    if children.isEmpty then
      put .out " '"
      put .out contents
      put .out "'"
    put .out "\n"
    putTrees (depth + 1) children

/-- Write the dumps of some nodes. -/
def putTrees (depth : Nat) : List ParseTree → Writing Unit
  | [] => pure ()
  | t :: ts => do
    putTree depth t
    putTrees depth ts

end

/-! ## Sessions -/

/-- Answer a line. -/
def respond (source : String) (showTree : Bool) : Writing Bool := do
  match Tree.parse source with
  | .error e =>
    put .err (Report.render source e)
    return false
  | .ok tree =>
    if showTree then putTree 0 tree
    putValue (evaluate tree.read)
    put .out "\n"
    return true

/-- Show the syntax tree of a source. -/
def writeTree (source : String) : Writing Bool := do
  match Tree.parse source with
  | .error e =>
    put .err (Report.render source e)
    return false
  | .ok tree =>
    putTree 0 tree
    return true

/-- Answer a line that is not blank, after lines all of which had a syntax tree or not. -/
def answerNext (allParsed : Bool) (line : List Char) : Writing Bool := do
  if Text.isBlankText line then return allParsed
  let parsed ← respond (.ofList line) false
  return allParsed && parsed

/-- Answer each line of a text that is not blank. -/
def runLines (source : String) : Writing Bool :=
  (Text.lines source.toList).foldlM answerNext true

/-- Prompt for lines and answer them. -/
def converse (config : Interactive) (input : List UInt8) (answered : Nat) : Writing Nat := do
  put .out config.prompt
  match input with
  | [] =>
    put .out "\n"
    return answered
  | b :: bs =>
    match Interactive.decodeLine? (Text.takeLine (b :: bs)).1 with
    | none => throw .invalidText
    | some line =>
      if Text.isBlankText line then converse config (Text.takeLine (b :: bs)).2 answered
      else
        let _ ← respond (.ofList line) config.showTree
        converse config (Text.takeLine (b :: bs)).2 (answered + 1)
termination_by input.length
decreasing_by all_goals exact Text.length_takeLine_snd_lt (List.cons_ne_nil b bs)

/-- A whole interactive session. -/
def interact (config : Interactive) (input : List UInt8) : Writing Nat := do
  if config.banner then
    put .out Interactive.greeting
    put .out "\n"
  converse config input 0

/-! ## Programs and transcripts -/

theorem on_bind (call : Writing α) (next : α → Writing β) (s : Sinks) :
    (call >>= next).on s =
      match call.on s with
      | (.ok a, s) => (next a).on s
      | (.error e, s) => (.error e, s) := by
  unfold on
  rw [ExceptT.run_bind, StateT.run_bind]
  change (match (call.run.run s) with | (r, s') => _) = _
  rcases call.run.run s with ⟨_ | a, s'⟩ <;> rfl

/-- A program does, write by write, what a transcript says. -/
def Sends (call : Writing α) (t : Transcript α) : Prop := ∀ s, call.on s = t.sendTo s

theorem sends_pure (a : α) : Sends (pure a) ⟨[], .ok a⟩ := fun _ => rfl

theorem sends_throw (e : StreamError) : Sends (throw e : Writing α) ⟨[], .error e⟩ := fun _ => rfl

theorem sends_put (stream : Stream) (text : String) :
    Sends (put stream text) ⟨[(stream, text)], .ok ()⟩ := by
  intro s
  change put stream text s = _
  unfold put Transcript.sendTo Sinks.writeAll
  rcases s.write stream text with ⟨s', _ | _⟩ <;> rfl

theorem Sends.bind {call : Writing α} {next : α → Writing β} {ws vs : List (Stream × String)} {a : α}
    {r : Except StreamError β} (h : Sends call ⟨ws, .ok a⟩) (hnext : Sends (next a) ⟨vs, r⟩) :
    Sends (call >>= next) ⟨ws ++ vs, r⟩ := by
  intro s
  rw [on_bind, h]
  unfold Transcript.sendTo
  rw [Sinks.writeAll_append]
  rcases s.writeAll ws with ⟨s', _ | _⟩
  · rfl
  · exact hnext s'

theorem Sends.seq {call : Writing Unit} {next : Writing α} {ws vs : List (Stream × String)}
    {r : Except StreamError α} (h : Sends call ⟨ws, .ok ()⟩) (hnext : Sends next ⟨vs, r⟩) :
    Sends (do call; next) ⟨ws ++ vs, r⟩ :=
  h.bind hnext

/-- A program writes a text to the stream of results. -/
def Puts (call : Writing Unit) (text : String) : Prop := Sends call ⟨[(.out, text)], .ok ()⟩

/-- Writing nothing is as good as writing an empty text. -/
theorem puts_pure : Puts (pure ()) "" := by
  intro s
  unfold Transcript.sendTo
  rw [Sinks.writeAll, Sinks.write_empty]
  rfl

/-- **A text may be written in parts**, before anything else. -/
theorem Puts.bind {call : Writing Unit} {next : Writing α} {text more : String}
    {ws : List (Stream × String)} {r : Except StreamError α} (h : Puts call text)
    (hnext : Sends next ⟨(.out, more) :: ws, r⟩) :
    Sends (do call; next) ⟨(.out, text ++ more) :: ws, r⟩ := by
  have hparts : Sends (do call; next) ⟨(.out, text) :: (.out, more) :: ws, r⟩ := Sends.seq h hnext
  intro s
  rw [hparts s]
  unfold Transcript.sendTo
  simp only [Sinks.writeAll, Sinks.write_append]
  rcases s.write .out text with ⟨s', _ | _⟩ <;> rfl

theorem Puts.append {call next : Writing Unit} {text more : String} (h : Puts call text)
    (hnext : Puts next more) : Puts (do call; next) (text ++ more) :=
  h.bind hnext

theorem puts_put (text : String) : Puts (put .out text) text := sends_put .out text

/-! ## Values and trees are written piece by piece -/

theorem intercalate_cons (separator s : String) (texts : List String) :
    separator.intercalate (s :: texts) = s ++ String.join (texts.map (separator ++ ·)) := by
  induction texts generalizing s with
  | nil => simp
  | cons t ts ih =>
    rw [String.intercalate_cons_cons, ih, List.map_cons, String.join_cons]
    simp only [String.append_assoc]

/-- Cells are written with spaces between them. -/
theorem puts_cells {cells : List Value} (h : ∀ c ∈ cells, Puts (putValue c) c.print) :
    Puts (putCells true cells) (" ".intercalate (cells.map Value.print)) := by
  have hlater : ∀ cs : List Value, (∀ c ∈ cs, Puts (putValue c) c.print) →
      Puts (putCells false cs) (String.join ((cs.map Value.print).map (" " ++ ·))) := by
    intro cs hcs
    induction cs with
    | nil => exact puts_pure
    | cons c cs ih =>
      obtain ⟨hc, hcs⟩ := List.forall_mem_cons.1 hcs
      rw [putCells, List.map_cons, List.map_cons, String.join_cons, String.append_assoc]
      exact (puts_put " ").append (hc.append (ih hcs))
  cases cells with
  | nil => exact puts_pure
  | cons c cs =>
    obtain ⟨hc, hcs⟩ := List.forall_mem_cons.1 h
    rw [putCells, List.map_cons, intercalate_cons]
    exact hc.append (hlater cs hcs)

/-- **A value is written as it is printed.** -/
theorem puts_value (v : Value) : Puts (putValue v) v.print := by
  induction v with
  | number n =>
    rw [putValue, Value.print_number]
    exact puts_put n.toText
  | error message =>
    rw [putValue, Value.print_error]
    exact (puts_put Value.errorMark).append (puts_put message)
  | symbol name =>
    rw [putValue, Value.print_symbol]
    exact puts_put name
  | sexpr cells ih =>
    rw [putValue, Value.print_sexpr, String.append_assoc]
    exact (puts_put "(").append ((puts_cells ih).append (puts_put ")"))
  | qexpr cells ih =>
    rw [putValue, Value.print_qexpr, String.append_assoc]
    exact (puts_put "\x7b").append ((puts_cells ih).append (puts_put "\x7d"))

theorem puts_spaces (n : Nat) : Puts (putSpaces n) (.ofList (List.replicate n ' ')) := by
  induction n with
  | zero => exact puts_pure
  | succ n ih =>
    rw [putSpaces, List.replicate_succ, ← List.singleton_append, String.ofList_append]
    exact (puts_put " ").append ih

theorem puts_trees {depth : Nat} {ts : List ParseTree}
    (h : ∀ t ∈ ts, Puts (putTree depth t) (t.dumpAt depth)) :
    Puts (putTrees depth ts) (String.join (ts.map (Tree.dumpAt depth))) := by
  induction ts with
  | nil => exact puts_pure
  | cons t ts ih =>
    obtain ⟨ht, hts⟩ := List.forall_mem_cons.1 h
    rw [putTrees, List.map_cons, String.join_cons]
    exact ht.append (ih hts)

/-- **A tree is written as it is dumped.** -/
theorem puts_tree (t : ParseTree) (depth : Nat) : Puts (putTree depth t) (t.dumpAt depth) := by
  induction t using Tree.induct generalizing depth with
  | node t ih =>
    have hchildren := puts_trees fun c hc => ih c hc (depth + 1)
    obtain ⟨tag, contents, info, children⟩ := t
    have hend := (puts_put "\n").append hchildren
    rw [putTree, Tree.dumpAt_eq, Tree.dumpLine]
    dsimp only at hend ⊢
    split
    · simp only [String.append_assoc]
      exact (puts_spaces _).append ((puts_put tag).append ((puts_put " '").append
        ((puts_put contents).append ((puts_put "'").append hend))))
    · simp only [String.append_assoc]
      exact (puts_spaces _).append ((puts_put tag).append hend)

/-! ## Sessions are written text by text -/

theorem sends_respond (source : String) (showTree : Bool) :
    Sends (respond source showTree) (respondOnce source showTree) := by
  unfold respond respondOnce Abacus.respond
  cases Tree.parse source with
  | error e => exact (sends_put .err _).seq (sends_pure false)
  | ok tree =>
    have hresult := (puts_value (evaluate tree.read)).bind
      ((puts_put "\n").seq (sends_pure true))
    cases showTree with
    | false => exact hresult
    | true => exact Sends.seq (puts_tree tree 0) hresult

theorem sends_writeTree (source : String) : Sends (writeTree source) (Abacus.writeTree source) := by
  unfold writeTree Abacus.writeTree
  cases Tree.parse source with
  | error e => exact (sends_put .err _).seq (sends_pure false)
  | ok tree => exact Sends.seq (puts_tree tree 0) (sends_pure true)

theorem sends_answerNext {line : List Char} (h : ¬Text.isBlankText line = true)
    (allParsed : Bool) :
    Sends (answerNext allParsed line) ⟨(Abacus.respond (.ofList line) false).writes,
      .ok (allParsed && (Abacus.respond (.ofList line) false).parsed)⟩ := by
  have hanswer : Sends (do let parsed ← respond (.ofList line) false; return allParsed && parsed)
      ⟨(Abacus.respond (.ofList line) false).writes ++ [],
        .ok (allParsed && (Abacus.respond (.ofList line) false).parsed)⟩ :=
    (sends_respond (.ofList line) false).bind (sends_pure _)
  rw [List.append_nil] at hanswer
  rw [answerNext, if_neg h]
  exact hanswer

/-- **Lines are answered one after the other.** -/
theorem sends_foldlM_answerNext (lines : List (List Char)) (allParsed : Bool) :
    Sends (lines.foldlM answerNext allParsed)
      ⟨answers (lines.filter fun line => !Text.isBlankText line),
        .ok (allParsed && (lines.filter fun line => !Text.isBlankText line).all fun line =>
          (Abacus.respond (.ofList line) false).parsed)⟩ := by
  induction lines generalizing allParsed with
  | nil =>
    rw [List.foldlM_nil, List.filter_nil, List.all_nil, Bool.and_true]
    exact sends_pure allParsed
  | cons line lines ih =>
    rw [List.foldlM_cons]
    by_cases hblank : Text.isBlankText line = true
    · rw [answerNext, if_pos hblank, List.filter_cons_of_neg (by simp [hblank])]
      exact Sends.bind (sends_pure allParsed) (ih allParsed)
    · rw [List.filter_cons_of_pos (by simp [hblank]), answers_cons, List.all_cons, ← Bool.and_assoc]
      exact (sends_answerNext hblank allParsed).bind (ih _)

theorem sends_runLines (source : String) : Sends (runLines source) (Abacus.runLines source) := by
  have hall := sends_foldlM_answerNext (Text.lines source.toList) true
  have heq : Abacus.runLines source = ⟨answers (answeredLines source),
      .ok ((answeredLines source).all fun line => (Abacus.respond (.ofList line) false).parsed)⟩ := by
    rw [Abacus.runLines, List.flatMap_map, List.all_map]
    rfl
  rw [heq]
  exact hall

/-- One step of a session, on the side of transcripts. -/
theorem answerFrom_cons {config : Interactive} {b : UInt8} {bs : List UInt8} {line : List Char}
    (h : Interactive.decodeLine? (Text.takeLine (b :: bs)).1 = some line) (answered : Nat) :
    config.answerFrom (b :: bs) [] answered =
      ⟨(.out, config.prompt) :: ((config.answerLine line).1 ++
          (config.answerFrom (Text.takeLine (b :: bs)).2 []
            (answered + (config.answerLine line).2)).writes),
        (config.answerFrom (Text.takeLine (b :: bs)).2 []
          (answered + (config.answerLine line).2)).outcome⟩ := by
  rw [Interactive.answerFrom]
  simp only [h]
  rw [Interactive.answerFrom_eq, Interactive.answerFrom_eq config _ [] (answered + _)]
  simp

/-- **Every step of a session is written as its transcript says**, and so is a whole run. -/
theorem sends_converse (config : Interactive) (input : List UInt8) (answered : Nat) :
    Sends (converse config input answered) (config.answerFrom input [] answered) := by
  induction input, answered using converse.induct with
  | case1 input answered ih =>
    have hprompt := sends_put .out config.prompt
    cases input with
    | nil =>
      rw [converse, Interactive.answerFrom]
      exact hprompt.seq ((sends_put .out "\n").seq (sends_pure answered))
    | cons b bs =>
      obtain ⟨hsame, hnext⟩ := ih
      rw [converse]
      cases hline : Interactive.decodeLine? (Text.takeLine (b :: bs)).1 with
      | none =>
        rw [Interactive.answerFrom]
        simp only [hline]
        exact hprompt.seq (sends_throw _)
      | some line =>
        rw [answerFrom_cons hline, Interactive.answerLine]
        dsimp only
        by_cases hblank : Text.isBlankText line = true
        · rw [if_pos hblank, if_pos hblank]
          exact hprompt.seq hsame
        · rw [if_neg hblank, if_neg hblank]
          exact hprompt.seq ((sends_respond (.ofList line) config.showTree).bind hnext)

theorem sends_interact (config : Interactive) (input : List UInt8) :
    Sends (interact config input) (config.run input) := by
  have hconverse := sends_converse config input 0
  have houtcome : ∀ ws, config.answerFrom input ws 0 =
      ⟨ws.reverse ++ (config.answerFrom input [] 0).writes,
        (config.answerFrom input [] 0).outcome⟩ := by
    intro ws
    rw [Interactive.answerFrom_eq]
    cases (config.answerFrom input [] 0).outcome <;> simp [Except.map]
  rw [Interactive.run, houtcome, interact]
  cases config.banner with
  | true => exact (puts_put Interactive.greeting).bind ((sends_put .out "\n").seq hconverse)
  | false => exact hconverse

/-! ## Full sinks -/

/-- A session ends with a count, or with an input that is no text. -/
theorem outcome_answerFrom_ne_full (config : Interactive) (input : List UInt8)
    (writes : List (Stream × String)) (answered : Nat) :
    (config.answerFrom input writes answered).outcome ≠ .error .full := by
  induction input, writes, answered using Interactive.answerFrom.induct config with
  | case1 writes answered =>
    rw [Interactive.answerFrom]
    intro h
    cases h
  | case2 writes answered b bs hline =>
    rw [Interactive.answerFrom]
    simp [hline]
  | case3 writes answered prompted b bs line hline answer ih =>
    rw [Interactive.answerFrom]
    simp only [hline]
    exact ih

/-- A program does, write by write, what a transcript says, and so it leaves in sinks that fill up
first parts of what it writes without limits. -/
structure StopsWhenFull (call : Writing α) (t : Transcript α) : Prop where
  delivers : ∀ outRoom errRoom,
    call.on ⟨.empty outRoom, .empty errRoom⟩ = (t.deliver outRoom errRoom).swap
  keepsPrefixes : t.KeepsPrefixes

theorem stopsWhenFull {call : Writing α} {t : Transcript α} (h : Sends call t)
    (ht : t.outcome ≠ .error .full) : StopsWhenFull call t where
  delivers := fun outRoom errRoom => by rw [h, Transcript.deliver_eq_sendTo, Prod.swap_swap]
  keepsPrefixes := Transcript.keepsPrefixes ht

/-- **A failing stream leaves exact prefixes**, whatever is answered: a line, the lines of a text, a
request for a syntax tree or an interactive session. -/
theorem sessions_stop_when_full :
    (∀ source showTree, StopsWhenFull (respond source showTree) (respondOnce source showTree)) ∧
      (∀ source, StopsWhenFull (runLines source) (Abacus.runLines source)) ∧
      (∀ source, StopsWhenFull (writeTree source) (Abacus.writeTree source)) ∧
      ∀ config input, StopsWhenFull (interact config input) (config.run input) := by
  refine ⟨fun source showTree => ?_, fun source => ?_, fun source => ?_, fun config input => ?_⟩
  · exact stopsWhenFull (sends_respond source showTree) nofun
  · exact stopsWhenFull (sends_runLines source) nofun
  · refine stopsWhenFull (sends_writeTree source) ?_
    unfold Abacus.writeTree
    cases Tree.parse source <;> exact nofun
  · exact stopsWhenFull (sends_interact config input) (outcome_answerFrom_ne_full config input _ 0)

end Writing

end Abacus
