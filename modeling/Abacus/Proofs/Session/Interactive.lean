import Abacus.Proofs.Text.Pieces
import Abacus.Session

/-!
# Interactive sessions line by line

An interactive session reads bytes, but what it does with them is said by the pieces of its input.
To each piece that is a text belongs an exchange: the prompt, and the answer to the text unless it is
blank. A session is the exchanges of its pieces one after the other, up to the first piece that is no
text or to the end of the input. No exchange depends on another one: it is a function of the text of
its own piece.

Headlines:
* `decodeLine?_bytes`, `decodeLine?_eq_none_iff`: what a piece is decoded to, and when it is no text.
* `answerFrom_bytes`: one step of a session is the exchange for the first piece.
* `answerFrom_texts`: the steps for a number of texts are their exchanges.
* `deliver_run_texts`, `deliver_run_of_not_text`: a session all of whose pieces are texts, and one
  with a piece that is none.
* `run_answers_pieces`: what a session writes, and what comes of it, for every input.
-/

namespace Abacus

/-! ## What is written -/

theorem writtenTo_append (stream : Stream) (ws vs : List (Stream × String)) :
    writtenTo stream (ws ++ vs) = writtenTo stream ws ++ writtenTo stream vs := by
  rw [writtenTo, List.filter_append, List.map_append]
  exact String.join_append

theorem writtenTo_cons_self (stream : Stream) (text : String) (ws : List (Stream × String)) :
    writtenTo stream ((stream, text) :: ws) = text ++ writtenTo stream ws := by
  rw [writtenTo, List.filter_cons_of_pos (by simp), List.map_cons, String.join_cons]
  rfl

theorem writtenTo_cons_of_ne {stream other : Stream} (h : other ≠ stream) (text : String)
    (ws : List (Stream × String)) : writtenTo stream ((other, text) :: ws) = writtenTo stream ws := by
  rw [writtenTo, List.filter_cons_of_neg (by simpa using h)]
  rfl

theorem writtenTo_flatMap {α : Type} (stream : Stream) (f : α → List (Stream × String))
    (xs : List α) :
    writtenTo stream (xs.flatMap f) = String.join (xs.map fun x => writtenTo stream (f x)) := by
  induction xs with
  | nil => rfl
  | cons x xs ih =>
    rw [List.flatMap_cons, writtenTo_append, ih, List.map_cons, String.join_cons]

/-- Sinks without limits that hold the given texts. -/
def Sinks.holding (out err : String) : Sinks := ⟨⟨out.toUTF8, none⟩, ⟨err.toUTF8, none⟩⟩

theorem Transcript.deliver_eq_holding {α : Type} (t : Transcript α) :
    t.deliver none none = (.holding (t.written .out) (t.written .err), t.outcome) :=
  t.deliver_unbounded

namespace Interactive

open Text (bytes pieces dropLineEnds isBlankText)

variable (config : Interactive)

/-! ## Exchanges -/

/-- What a session writes before the first prompt. -/
def opening : String := if config.banner then greeting ++ "\n" else ""

/-- The answer to a text: none to one that is blank, else that to the text without the line feeds and
carriage returns at its end. -/
def answer (text : String) : List (Stream × String) :=
  if isBlankText text.toList then []
  else (respond (.ofList (dropLineEnds text.toList)) config.showTree).writes

/-- What is written for a piece with the given text: the prompt and the answer. -/
def exchange (text : String) : List (Stream × String) := (.out, config.prompt) :: config.answer text

/-- The number of answered texts. -/
def answered (texts : List String) : Nat := texts.countP fun text => !isBlankText text.toList

theorem answered_cons (text : String) (texts : List String) :
    answered (text :: texts) = answered [text] + answered texts :=
  @List.countP_append _ _ [text] texts

/-! ## Decoding -/

/-- Decoding the bytes of a text gives it back. -/
theorem fromUTF8?_bytes (text : String) :
    String.fromUTF8? ⟨(bytes text).toArray⟩ = some text := by
  have hvalid : text.toUTF8.IsValidUTF8 := text.isValidUTF8
  rw [bytes, Array.toArray_toList]
  change String.fromUTF8? text.toUTF8 = _
  rw [String.fromUTF8?, dif_pos hvalid]
  rfl

theorem decodeLine?_bytes (text : String) :
    decodeLine? (bytes text) = some (dropLineEnds text.toList) := by
  rw [decodeLine?, fromUTF8?_bytes]
  rfl

/-- A piece that cannot be decoded is no text. -/
theorem decodeLine?_eq_none_iff {piece : List UInt8} :
    decodeLine? piece = none ↔ ∀ text, piece ≠ bytes text := by
  constructor
  · rintro h text rfl
    rw [decodeLine?_bytes] at h
    cases h
  · intro h
    rw [decodeLine?, Option.map_eq_none_iff, String.fromUTF8?]
    refine dif_neg fun hvalid => h (String.fromUTF8 _ hvalid) ?_
    rw [bytes]
    rfl

/-! ## Steps -/

theorem answerFrom_nil :
    config.answerFrom [] [] 0 = ⟨[(.out, config.prompt), (.out, "\n")], .ok 0⟩ := by
  rw [answerFrom]
  rfl

/-- The answer to a decoded piece, and how many that is. -/
theorem answerLine_dropLineEnds (text : String) :
    config.answerLine (dropLineEnds text.toList) = (config.answer text, answered [text]) := by
  rw [answerLine, answer, Text.isBlankText_dropLineEnds, answered, List.countP_singleton]
  cases isBlankText text.toList <;> rfl

/-- **A session goes on with the exchange for its first piece**, if this is a text. -/
theorem answerFrom_bytes {input : List UInt8} {text : String} {later : List (List UInt8)}
    (h : pieces input = bytes text :: later) :
    ∃ rest, pieces rest = later ∧
      config.answerFrom input [] 0 =
        ⟨config.exchange text ++ (config.answerFrom rest [] 0).writes,
          (config.answerFrom rest [] 0).outcome.map (answered [text] + ·)⟩ := by
  cases input with
  | nil => cases h
  | cons b bs =>
    rw [Text.pieces_eq_takeLine (List.cons_ne_nil b bs)] at h
    obtain ⟨hfirst, hlater⟩ := List.cons.inj h
    refine ⟨(Text.takeLine (b :: bs)).2, hlater, ?_⟩
    rw [answerFrom, hfirst, decodeLine?_bytes]
    dsimp only
    rw [answerFrom_eq, answerLine_dropLineEnds]
    simp [exchange]

/-- A session ends with the prompt for its first piece, if this is no text. -/
theorem answerFrom_of_not_text {input piece : List UInt8} {later : List (List UInt8)}
    (h : pieces input = piece :: later) (hpiece : ∀ text, piece ≠ bytes text) :
    config.answerFrom input [] 0 = ⟨[(.out, config.prompt)], .error .invalidText⟩ := by
  cases input with
  | nil => cases h
  | cons b bs =>
    rw [Text.pieces_eq_takeLine (List.cons_ne_nil b bs)] at h
    obtain ⟨hfirst, -⟩ := List.cons.inj h
    rw [answerFrom, hfirst, decodeLine?_eq_none_iff.2 hpiece]
    rfl

/-! ## Runs -/

/-- **The steps for a number of texts are their exchanges**, whatever follows. -/
theorem answerFrom_texts {input : List UInt8} {texts : List String} {later : List (List UInt8)}
    (h : pieces input = texts.map bytes ++ later) :
    ∃ rest, pieces rest = later ∧
      config.answerFrom input [] 0 =
        ⟨texts.flatMap config.exchange ++ (config.answerFrom rest [] 0).writes,
          (config.answerFrom rest [] 0).outcome.map (answered texts + ·)⟩ := by
  -- on the texts: what an exchange leaves of the input has the pieces of the texts after it
  induction texts generalizing input with
  | nil =>
    refine ⟨input, h, ?_⟩
    cases config.answerFrom input [] 0 with
    | mk writes outcome => cases outcome <;> simp [answered, Except.map]
  | cons text texts ih =>
    obtain ⟨middle, hmiddle, hstep⟩ := config.answerFrom_bytes h
    obtain ⟨rest, hrest, hrun⟩ := ih hmiddle
    refine ⟨rest, hrest, ?_⟩
    rw [hstep, hrun, List.flatMap_cons, List.append_assoc]
    cases (config.answerFrom rest [] 0).outcome with
    | error e => rfl
    | ok n => simp only [Except.map, answered_cons text texts, Nat.add_assoc]

/-- What the exchanges for some texts put on the stream of results. -/
def results (texts : List String) : String :=
  String.join (texts.map fun text => config.prompt ++ writtenTo .out (config.answer text))

/-- What the exchanges for some texts put on the stream of reports. -/
def reports (texts : List String) : String :=
  String.join (texts.map fun text => writtenTo .err (config.answer text))

theorem writtenTo_out_exchanges (texts : List String) :
    writtenTo .out (texts.flatMap config.exchange) = config.results texts := by
  rw [writtenTo_flatMap]
  exact congrArg String.join
    (List.map_congr_left fun text _ => writtenTo_cons_self .out config.prompt _)

theorem writtenTo_err_exchanges (texts : List String) :
    writtenTo .err (texts.flatMap config.exchange) = config.reports texts := by
  rw [writtenTo_flatMap]
  exact congrArg String.join
    (List.map_congr_left fun text _ => writtenTo_cons_of_ne (by decide) config.prompt _)

/-- What a session that starts with some exchanges writes without limits. -/
theorem deliver_run {input : List UInt8} {texts : List String} {last : List (Stream × String)}
    {outcome : Except StreamError Nat}
    (h : config.answerFrom input [] 0 = ⟨texts.flatMap config.exchange ++ last, outcome⟩) :
    (config.run input).deliver none none =
      (.holding (config.opening ++ config.results texts ++ writtenTo .out last)
        (config.reports texts ++ writtenTo .err last), outcome) := by
  have hopening :
      writtenTo .out (if config.banner then [(.out, greeting ++ "\n")] else []).reverse =
          config.opening ∧
        writtenTo .err (if config.banner then [(.out, greeting ++ "\n")] else []).reverse = "" := by
    unfold opening
    split
    · exact ⟨(writtenTo_cons_self .out _ []).trans String.append_empty, rfl⟩
    · exact ⟨rfl, rfl⟩
  rw [run, answerFrom_eq, h, Transcript.deliver_eq_holding, Transcript.written, Transcript.written]
  simp only [writtenTo_append, writtenTo_out_exchanges, writtenTo_err_exchanges, hopening,
    String.empty_append, String.append_assoc]
  cases outcome <;> simp [Except.map]

/-- A session all of whose pieces are texts. -/
theorem deliver_run_texts {input : List UInt8} {texts : List String}
    (h : pieces input = texts.map bytes) :
    (config.run input).deliver none none =
      (.holding (config.opening ++ config.results texts ++ config.prompt ++ "\n")
        (config.reports texts), .ok (answered texts)) := by
  obtain ⟨rest, hrest, hrun⟩ := config.answerFrom_texts (h.trans (List.append_nil _).symm)
  -- the pieces make up the input, so with no piece left it has come to its end
  obtain rfl : rest = [] := by
    rw [← Text.flatten_cutAfter rest]
    exact congrArg List.flatten hrest
  rw [answerFrom_nil] at hrun
  have hout : writtenTo .out [(.out, config.prompt), (.out, "\n")] = config.prompt ++ "\n" := by
    simp only [writtenTo_cons_self]
    rfl
  have herr : writtenTo .err [(.out, config.prompt), (.out, "\n")] = "" := rfl
  rw [config.deliver_run hrun, hout, herr, String.append_empty, ← String.append_assoc]
  rfl

/-- A session with a piece that is no text. -/
theorem deliver_run_of_not_text {input piece : List UInt8} {texts : List String}
    {later : List (List UInt8)} (h : pieces input = texts.map bytes ++ piece :: later)
    (hpiece : ∀ text, piece ≠ bytes text) :
    (config.run input).deliver none none =
      (.holding (config.opening ++ config.results texts ++ config.prompt) (config.reports texts),
        .error .invalidText) := by
  obtain ⟨rest, hrest, hrun⟩ := config.answerFrom_texts h
  rw [config.answerFrom_of_not_text hrest hpiece] at hrun
  have hout : writtenTo .out [(.out, config.prompt)] = config.prompt :=
    (writtenTo_cons_self .out _ []).trans String.append_empty
  have herr : writtenTo .err [(.out, config.prompt)] = "" := rfl
  rw [config.deliver_run hrun, hout, herr, String.append_empty]
  rfl

/-- Pieces are texts up to the first one that is none, if there is such a one. -/
theorem texts_or_not_text (ps : List (List UInt8)) :
    (∃ texts : List String, ps = texts.map bytes) ∨
      ∃ (texts : List String) (piece : List UInt8) (later : List (List UInt8)),
        ps = texts.map bytes ++ piece :: later ∧ ∀ text, piece ≠ bytes text := by
  induction ps with
  | nil => exact .inl ⟨[], rfl⟩
  | cons p ps ih =>
    by_cases hp : ∃ text, p = bytes text
    · obtain ⟨text, rfl⟩ := hp
      rcases ih with ⟨texts, rfl⟩ | ⟨texts, piece, later, rfl, hpiece⟩
      · exact .inl ⟨text :: texts, rfl⟩
      · exact .inr ⟨text :: texts, piece, later, rfl, hpiece⟩
    · exact .inr ⟨[], p, ps, rfl, not_exists.1 hp⟩

/-- **A session is its lines.** If all pieces of the input are texts, a session without limits writes
the greeting, for each piece the prompt and its answer, and a last prompt; it counts the texts that
are not blank. If a piece is no text, the session fails after the prompt for the first such piece. One
of the two is the case with every input. -/
theorem run_answers_pieces (input : List UInt8) :
    (∀ texts : List String, pieces input = texts.map bytes →
      (config.run input).deliver none none =
        (.holding (config.opening ++ config.results texts ++ config.prompt ++ "\n")
          (config.reports texts), .ok (answered texts))) ∧
    (∀ (texts : List String) (piece : List UInt8) (later : List (List UInt8)),
      pieces input = texts.map bytes ++ piece :: later → (∀ text, piece ≠ bytes text) →
      (config.run input).deliver none none =
        (.holding (config.opening ++ config.results texts ++ config.prompt)
          (config.reports texts), .error .invalidText)) ∧
    ((∃ texts : List String, pieces input = texts.map bytes) ∨
      ∃ (texts : List String) (piece : List UInt8) (later : List (List UInt8)),
        pieces input = texts.map bytes ++ piece :: later ∧ ∀ text, piece ≠ bytes text) :=
  ⟨fun _ => config.deliver_run_texts, fun _ _ _ => config.deliver_run_of_not_text,
    texts_or_not_text _⟩

end Interactive

end Abacus
