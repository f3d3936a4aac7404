/-!
# Transcripts

What a session writes is a value: a list of texts, each for one of two streams, and the outcome. A
transcript is delivered to two sinks that may have room for a limited number of bytes only. The
first text that does not fit is written as far as it fits, and ends the delivery.

Model of the two writers that `respond`, `run_lines`, `write_tree` and the interactive loop are
given, and of the failures in `CliError` that come from streams.

Out of scope: flushing, which is taken to succeed, and writers that fail for another reason than
that they are full.

Headline: `Transcript.deliver_unbounded`, without limits everything is written and the outcome kept.
-/

namespace Abacus

/-- The two streams that a session writes to. -/
inductive Stream where
  /-- Results. -/
  | out
  /-- Reports of faults. -/
  | err
  deriving DecidableEq, Repr

/-- Why a session breaks off. -/
inductive StreamError where
  /-- A sink has no room for a text. -/
  | full
  /-- The input is no text. -/
  | invalidText
  deriving DecidableEq, Repr

/-- The text of a broken stream. -/
def StreamError.message : StreamError → String
  | full => "sink full"
  | invalidText => "stream did not contain valid UTF-8"

/-- All that some writes put on a stream. -/
def writtenTo (stream : Stream) (writes : List (Stream × String)) : String :=
  String.join ((writes.filter (·.1 == stream)).map (·.2))

/-- What is written, in order, and what comes of it. -/
structure Transcript (α : Type) where
  writes : List (Stream × String)
  outcome : Except StreamError α

/-! ## Sinks -/

/-- The receiving end of a stream: the bytes it holds and, if there is a limit, the number of bytes
that it still takes. -/
structure Sink where
  held : ByteArray
  room : Option Nat

namespace Sink

/-- A sink that holds nothing yet and takes `room` bytes. -/
def empty (room : Option Nat) : Sink := ⟨.empty, room⟩

/-- Write a text. The second part of the result says whether all of it was written. -/
def write (s : Sink) (text : String) : Sink × Bool :=
  match s.room with
  | none => (⟨s.held ++ text.toUTF8, none⟩, true)
  | some n =>
    if text.utf8ByteSize ≤ n then (⟨s.held ++ text.toUTF8, some (n - text.utf8ByteSize)⟩, true)
    else (⟨s.held ++ text.toUTF8.extract 0 n, some 0⟩, false)

end Sink

/-- The sinks of the two streams. -/
structure Sinks where
  out : Sink
  err : Sink

namespace Sinks

/-- Write a text to a stream. The second part of the result says whether all of it was written. -/
def write (s : Sinks) (stream : Stream) (text : String) : Sinks × Bool :=
  match stream with
  | .out => let (sink, done) := s.out.write text; (⟨sink, s.err⟩, done)
  | .err => let (sink, done) := s.err.write text; (⟨s.out, sink⟩, done)

/-- Write texts one after another, up to the first that does not fit. -/
def writeAll (s : Sinks) : List (Stream × String) → Sinks × Bool
  | [] => (s, true)
  | (stream, text) :: rest =>
    match s.write stream text with
    | (s, true) => writeAll s rest
    | (s, false) => (s, false)

end Sinks

namespace Transcript

variable {α : Type}

/-- Everything written to a stream. -/
def written (t : Transcript α) (stream : Stream) : String := writtenTo stream t.writes

/-- Deliver a transcript to sinks with the given limits. If a sink is too small, that is the
outcome. -/
def deliver (t : Transcript α) (outRoom errRoom : Option Nat) : Sinks × Except StreamError α :=
  match Sinks.writeAll ⟨.empty outRoom, .empty errRoom⟩ t.writes with
  | (s, true) => (s, t.outcome)
  | (s, false) => (s, .error .full)

private theorem writeAll_unbounded (ws : List (Stream × String)) (held held' : ByteArray) :
    Sinks.writeAll ⟨⟨held, none⟩, ⟨held', none⟩⟩ ws =
      (⟨⟨held ++ (writtenTo .out ws).toUTF8, none⟩, ⟨held' ++ (writtenTo .err ws).toUTF8, none⟩⟩,
        true) := by
  induction ws generalizing held held' with
  | nil => simp [Sinks.writeAll, writtenTo]
  | cons w ws ih =>
    obtain ⟨stream, text⟩ := w
    cases stream <;>
      simp [Sinks.writeAll, Sinks.write, Sink.write, writtenTo, ih, ByteArray.append_assoc]

/-- **Without limits everything is written** and the outcome is kept. -/
theorem deliver_unbounded (t : Transcript α) :
    t.deliver none none =
      (⟨⟨(t.written .out).toUTF8, none⟩, ⟨(t.written .err).toUTF8, none⟩⟩, t.outcome) := by
  simp [deliver, Sink.empty, writeAll_unbounded, written]

end Transcript

end Abacus
