import Abacus.Proofs.Session.Interactive

/-!
# Delivery to sinks that fill up

What a transcript leaves in two sinks that take limited numbers of bytes is told byte by byte. The
bytes of a transcript stand in an order, each with its stream. Delivery goes through them up to the
first that finds its sink full. So both sinks hold what comes before this byte, which is all that the
full sink has room for, and they hold nothing else.

Headlines:
* `Sink.write_append`: a text may be written in parts.
* `Sinks.writeAll_limited`: the writes to limited sinks, up to the first byte without room.
* `Transcript.keepsPrefixes`: what becomes of a transcript, for every pair of limits.
-/

namespace Abacus

open Text (bytes)

/-! ## Single sinks -/

theorem extract_of_size_le {b : ByteArray} {n : Nat} (h : b.size ≤ n) : b.extract 0 n = b := by
  refine ByteArray.ext ?_
  rw [ByteArray.data_extract]
  exact Array.extract_eq_self_of_le h

namespace Sink

/-- A sink with a limit takes as many bytes as it has room for. -/
theorem write_limited (held : ByteArray) (room : Nat) (text : String) :
    (⟨held, some room⟩ : Sink).write text =
      (⟨held ++ text.toUTF8.extract 0 room, some (room - text.utf8ByteSize)⟩,
        decide (text.utf8ByteSize ≤ room)) := by
  unfold write
  dsimp only
  split
  · next h =>
    have hwhole : text.toUTF8.extract 0 room = text.toUTF8 := extract_of_size_le h
    rw [hwhole, decide_eq_true h]
  · next h => rw [decide_eq_false h, Nat.sub_eq_zero_of_le (by omega)]

/-- An empty text always has room. -/
theorem write_empty (s : Sink) : s.write "" = (s, true) := by
  obtain ⟨held, _ | room⟩ := s
  · simp [write]
  · have hempty : ByteArray.empty.extract 0 room = ByteArray.empty := extract_of_size_le (Nat.zero_le _)
    simp [write_limited, hempty]

/-- **A text may be written in parts**: what is left of it is not written once the sink is full. -/
theorem write_append (s : Sink) (text more : String) :
    s.write (text ++ more) =
      match s.write text with
      | (s, true) => s.write more
      | (s, false) => (s, false) := by
  obtain ⟨held, _ | room⟩ := s
  · simp [write, ByteArray.append_assoc]
  · have hsplit : (text ++ more).toUTF8.extract 0 room =
        text.toUTF8.extract 0 room ++ more.toUTF8.extract 0 (room - text.utf8ByteSize) := by
      rw [String.toUTF8, String.toByteArray_append, ByteArray.extract_append, String.size_toByteArray,
        Nat.zero_sub]
      rfl
    rw [write_limited, write_limited, String.utf8ByteSize_append, hsplit]
    by_cases h : text.utf8ByteSize ≤ room
    · rw [decide_eq_true h]
      dsimp only
      rw [write_limited, ByteArray.append_assoc, Nat.sub_sub]
      have hiff : text.utf8ByteSize + more.utf8ByteSize ≤ room ↔
          more.utf8ByteSize ≤ room - text.utf8ByteSize := by omega
      rw [decide_eq_decide.2 hiff]
    · have hfull : room - text.utf8ByteSize = 0 := by omega
      have hsum : ¬text.utf8ByteSize + more.utf8ByteSize ≤ room := by omega
      rw [decide_eq_false h, decide_eq_false hsum, hfull, Nat.sub_eq_zero_of_le (by omega)]
      simp

/-- The bytes that a sink holds. -/
def bytes (s : Sink) : List UInt8 := s.held.data.toList

theorem bytes_write_limited {s : Sink} {room : Nat} (h : s.room = some room) (text : String) :
    (s.write text).1.bytes = s.bytes ++ (Text.bytes text).take room ∧
      (s.write text).1.room = some (room - (Text.bytes text).length) ∧
      ((s.write text).2 = true ↔ (Text.bytes text).length ≤ room) := by
  obtain ⟨held, _⟩ := s
  subst h
  rw [write_limited, Text.length_bytes]
  refine ⟨?_, rfl, decide_eq_true_iff⟩
  unfold bytes
  rw [ByteArray.data_append, Array.toList_append, ByteArray.data_extract, Array.toList_extract,
    List.extract_eq_take_drop]
  rfl

end Sink

/-! ## Bytes in their order -/

/-- The bytes of some writes in the order in which they are written, each with its stream. -/
def trace (writes : List (Stream × String)) : List (Stream × UInt8) :=
  writes.flatMap fun w => (bytes w.2).map (w.1, ·)

/-- The bytes of a trace on one of the streams. -/
def bytesOn (stream : Stream) (bs : List (Stream × UInt8)) : List UInt8 :=
  (bs.filter (·.1 == stream)).map (·.2)

theorem bytesOn_append (stream : Stream) (bs cs : List (Stream × UInt8)) :
    bytesOn stream (bs ++ cs) = bytesOn stream bs ++ bytesOn stream cs := by
  rw [bytesOn, List.filter_append, List.map_append]
  rfl

/-- The bytes of a single text. -/
theorem bytesOn_map (stream other : Stream) (bs : List UInt8) :
    bytesOn stream (bs.map (other, ·)) = if other = stream then bs else [] := by
  unfold bytesOn
  rw [List.filter_map, List.map_map]
  by_cases h : other = stream
  · subst h
    simp [Function.comp_def]
  · simp [Function.comp_def, h]

theorem trace_cons (stream : Stream) (text : String) (ws : List (Stream × String)) :
    trace ((stream, text) :: ws) = (bytes text).map (stream, ·) ++ trace ws := rfl

/-- What is written to a stream are the bytes of the trace there. -/
theorem bytes_writtenTo (stream : Stream) (ws : List (Stream × String)) :
    bytes (writtenTo stream ws) = bytesOn stream (trace ws) := by
  induction ws with
  | nil => rfl
  | cons w ws ih =>
    obtain ⟨other, text⟩ := w
    rw [trace_cons, bytesOn_append, bytesOn_map, ← ih]
    by_cases h : other = stream
    · subst h
      rw [writtenTo_cons_self, if_pos rfl, Text.bytes_append]
    · rw [writtenTo_cons_of_ne h, if_neg h, List.nil_append]

/-- All the bytes have room. -/
def Fits (limit : Stream → Nat) (bs : List (Stream × UInt8)) : Prop :=
  ∀ stream, (bytesOn stream bs).length ≤ limit stream

/-- The room that is left after some bytes. -/
def roomAfter (limit : Stream → Nat) (bs : List (Stream × UInt8)) (stream : Stream) : Nat :=
  limit stream - (bytesOn stream bs).length

/-- The bytes `before` have room, and the next one after them finds the sink of `stream` full. -/
structure FillsUp (limit : Stream → Nat) (bs before : List (Stream × UInt8)) (stream : Stream) :
    Prop where
  next : ∃ b after, bs = before ++ (stream, b) :: after
  fits : Fits limit before
  full : (bytesOn stream before).length = limit stream

theorem fits_append_iff {limit : Stream → Nat} {bs cs : List (Stream × UInt8)} :
    Fits limit (bs ++ cs) ↔ Fits limit bs ∧ Fits (roomAfter limit bs) cs := by
  unfold Fits roomAfter
  rw [← forall_and]
  refine forall_congr' fun stream => ?_
  rw [bytesOn_append, List.length_append]
  omega

/-- Bytes that have room may come first. -/
theorem FillsUp.append {limit : Stream → Nat} {cs bs before : List (Stream × UInt8)}
    {stream : Stream} (hc : Fits limit cs) (h : FillsUp (roomAfter limit cs) bs before stream) :
    FillsUp limit (cs ++ bs) (cs ++ before) stream := by
  obtain ⟨⟨b, after, rfl⟩, hfits, hfull⟩ := h
  refine ⟨⟨b, after, (List.append_assoc ..).symm⟩, fits_append_iff.2 ⟨hc, hfits⟩, ?_⟩
  have := hc stream
  rw [bytesOn_append, List.length_append, hfull, roomAfter]
  omega

/-- What comes before the byte without room is a first part of the bytes. -/
theorem FillsUp.isPrefix {limit : Stream → Nat} {bs before : List (Stream × UInt8)}
    {stream : Stream} (h : FillsUp limit bs before stream) (other : Stream) :
    bytesOn other before <+: bytesOn other bs := by
  obtain ⟨b, after, rfl⟩ := h.next
  exact ⟨_, (bytesOn_append other before _).symm⟩

/-- A sink that is filled up is too small. -/
theorem FillsUp.lt_length {limit : Stream → Nat} {bs before : List (Stream × UInt8)}
    {stream : Stream} (h : FillsUp limit bs before stream) :
    limit stream < (bytesOn stream bs).length := by
  obtain ⟨b, after, rfl⟩ := h.next
  have hnext : bytesOn stream ((stream, b) :: after) = b :: bytesOn stream after := by
    rw [bytesOn, List.filter_cons_of_pos (by simp), List.map_cons]
    rfl
  rw [bytesOn_append, hnext, List.length_append, List.length_cons, h.full]
  omega

/-- A text without enough room for it fills up its sink. -/
theorem fillsUp_of_lt {limit : Stream → Nat} {stream : Stream} {text : List UInt8}
    (h : limit stream < text.length) (bs : List (Stream × UInt8)) :
    FillsUp limit (text.map (stream, ·) ++ bs) ((text.take (limit stream)).map (stream, ·))
      stream := by
  refine ⟨?_, fun other => ?_, ?_⟩
  · refine ⟨text[limit stream], (text.drop (limit stream + 1)).map (stream, ·) ++ bs, ?_⟩
    rw [← List.cons_append, ← List.append_assoc, ← List.map_cons, List.getElem_cons_drop,
      ← List.map_append, List.take_append_drop]
  · rw [bytesOn_map]
    split
    · next he =>
      rw [← he]
      exact List.length_take_le ..
    · exact Nat.zero_le _
  · rw [bytesOn_map, if_pos rfl, List.length_take, Nat.min_eq_left (Nat.le_of_lt h)]

/-! ## Both sinks -/

namespace Sinks

/-- The sink of a stream. -/
def sink (s : Sinks) : Stream → Sink
  | .out => s.out
  | .err => s.err

/-- The bytes that the sink of a stream holds. -/
def held (s : Sinks) (stream : Stream) : List UInt8 := (s.sink stream).bytes

/-- Each sink takes the given number of bytes. -/
def HasRoom (s : Sinks) (limit : Stream → Nat) : Prop :=
  ∀ stream, (s.sink stream).room = some (limit stream)

theorem sink_write (s : Sinks) (stream : Stream) (text : String) :
    (s.write stream text).1.sink stream = ((s.sink stream).write text).1 ∧
      (s.write stream text).2 = ((s.sink stream).write text).2 ∧
      ∀ other, other ≠ stream → (s.write stream text).1.sink other = s.sink other := by
  cases stream
  · exact ⟨rfl, rfl, fun other h => by cases other <;> [exact absurd rfl h; rfl]⟩
  · exact ⟨rfl, rfl, fun other h => by cases other <;> [rfl; exact absurd rfl h]⟩

theorem writeAll_append (s : Sinks) (ws vs : List (Stream × String)) :
    s.writeAll (ws ++ vs) =
      match s.writeAll ws with
      | (s, true) => s.writeAll vs
      | (s, false) => (s, false) := by
  induction ws generalizing s with
  | nil => rfl
  | cons w ws ih =>
    obtain ⟨stream, text⟩ := w
    rw [List.cons_append, writeAll, writeAll]
    split
    · exact ih _
    · rfl

theorem write_empty (s : Sinks) (stream : Stream) : s.write stream "" = (s, true) := by
  cases stream
  · rw [write, Sink.write_empty]
  · rw [write, Sink.write_empty]

theorem write_append (s : Sinks) (stream : Stream) (text more : String) :
    s.write stream (text ++ more) =
      match s.write stream text with
      | (s, true) => s.write stream more
      | (s, false) => (s, false) := by
  cases stream
  · unfold write
    dsimp only
    rw [Sink.write_append]
    rcases s.out.write text with ⟨sink, _ | _⟩ <;> rfl
  · unfold write
    dsimp only
    rw [Sink.write_append]
    rcases s.err.write text with ⟨sink, _ | _⟩ <;> rfl

theorem held_eq (s : Sinks) (stream : Stream) : s.held stream = (s.sink stream).bytes := rfl

/-- What a text does to limited sinks. -/
theorem write_limited {s : Sinks} {limit : Stream → Nat} (h : s.HasRoom limit) (stream : Stream)
    (text : String) :
    (s.write stream text).1.HasRoom (roomAfter limit ((bytes text).map (stream, ·))) ∧
      (∀ other, (s.write stream text).1.held other =
        s.held other ++ (bytesOn other ((bytes text).map (stream, ·))).take (limit other)) ∧
      ((s.write stream text).2 = true ↔ (bytes text).length ≤ limit stream) := by
  obtain ⟨hsink, hfits, hother⟩ := s.sink_write stream text
  obtain ⟨hbytes, hroom, hiff⟩ := Sink.bytes_write_limited (h stream) text
  refine ⟨fun other => ?_, fun other => ?_, hfits ▸ hiff⟩
  · rw [roomAfter, bytesOn_map]
    by_cases he : stream = other
    · subst he
      rw [if_pos rfl, hsink, hroom]
    · rw [if_neg he, hother other (Ne.symm he), h other]
      rfl
  · rw [bytesOn_map, held_eq, held_eq]
    by_cases he : stream = other
    · subst he
      rw [if_pos rfl, hsink, hbytes]
    · rw [if_neg he, hother other (Ne.symm he), List.take_nil, List.append_nil]

/-- **Writes to limited sinks**: all of them if they have room, and else what comes before the first
byte that finds its sink full. -/
theorem writeAll_limited {s : Sinks} {limit : Stream → Nat} (h : s.HasRoom limit)
    (ws : List (Stream × String)) :
    ((s.writeAll ws).2 = true ∧ Fits limit (trace ws) ∧
        ∀ stream, (s.writeAll ws).1.held stream = s.held stream ++ bytesOn stream (trace ws)) ∨
      ((s.writeAll ws).2 = false ∧ ∃ before stream, FillsUp limit (trace ws) before stream ∧
        ∀ other, (s.writeAll ws).1.held other = s.held other ++ bytesOn other before) := by
  induction ws generalizing s limit with
  | nil => exact .inl ⟨rfl, fun _ => Nat.zero_le _, fun _ => (List.append_nil _).symm⟩
  | cons w ws ih =>
    obtain ⟨stream, text⟩ := w
    obtain ⟨hroom, hheld, hiff⟩ := write_limited h stream text
    rw [writeAll, trace_cons]
    by_cases hfits : (bytes text).length ≤ limit stream
    · have hchunk : Fits limit ((bytes text).map (stream, ·)) := by
        intro other
        rw [bytesOn_map]
        split
        · next he => exact he ▸ hfits
        · exact Nat.zero_le _
      rcases hw : s.write stream text with ⟨s', done⟩
      rw [hw] at hroom hheld hiff
      obtain rfl : done = true := hiff.2 hfits
      have hs' : ∀ other, s'.held other =
          s.held other ++ bytesOn other ((bytes text).map (stream, ·)) := by
        intro other
        rw [hheld, List.take_of_length_le (hchunk other)]
      rcases ih hroom with ⟨hdone, hrest, hall⟩ | ⟨hdone, before, full, hfills, hall⟩
      · refine .inl ⟨hdone, fits_append_iff.2 ⟨hchunk, hrest⟩, fun other => ?_⟩
        rw [hall, hs', bytesOn_append, List.append_assoc]
      · refine .inr ⟨hdone, _, full, hfills.append hchunk, fun other => ?_⟩
        rw [hall, hs', bytesOn_append, List.append_assoc]
    · rcases hw : s.write stream text with ⟨s', done⟩
      rw [hw] at hheld hiff
      obtain rfl : done = false := Bool.eq_false_iff.2 (mt hiff.1 hfits)
      refine .inr ⟨rfl, _, stream, fillsUp_of_lt (Nat.lt_of_not_le hfits) (trace ws), fun other => ?_⟩
      rw [hheld, bytesOn_map, bytesOn_map]
      split
      · next he => rw [he]
      · rw [List.take_nil]

end Sinks

/-! ## Transcripts -/

namespace Transcript

variable {α : Type}

/-- Send a transcript to sinks that may hold something already. -/
def sendTo (t : Transcript α) (s : Sinks) : Except StreamError α × Sinks :=
  match s.writeAll t.writes with
  | (s, true) => (t.outcome, s)
  | (s, false) => (.error .full, s)

theorem deliver_eq_sendTo (t : Transcript α) (outRoom errRoom : Option Nat) :
    t.deliver outRoom errRoom = (t.sendTo ⟨.empty outRoom, .empty errRoom⟩).swap := by
  unfold deliver sendTo
  rcases Sinks.writeAll ⟨.empty outRoom, .empty errRoom⟩ t.writes with ⟨s, _ | _⟩ <;> rfl

/-- Deliver a transcript to sinks that take so many bytes each. -/
def deliverWithin (t : Transcript α) (limit : Stream → Nat) : Sinks × Except StreamError α :=
  t.deliver (some (limit .out)) (some (limit .err))

/-- Without limits the sinks hold all bytes of the trace. -/
theorem held_deliver_unbounded (t : Transcript α) (stream : Stream) :
    (t.deliver none none).1.held stream = bytesOn stream (trace t.writes) := by
  rw [deliver_unbounded, ← bytes_writtenTo]
  cases stream <;> rfl

/-- **Delivery within limits**: the outcome and all bytes of the trace if they have room, and else
what comes before the first byte that finds its sink full. -/
theorem deliverWithin_cases (t : Transcript α) (limit : Stream → Nat) :
    (Fits limit (trace t.writes) ∧ (t.deliverWithin limit).2 = t.outcome ∧
        ∀ stream, (t.deliverWithin limit).1.held stream = bytesOn stream (trace t.writes)) ∨
      ((t.deliverWithin limit).2 = .error .full ∧
        ∃ before stream, FillsUp limit (trace t.writes) before stream ∧
          ∀ other, (t.deliverWithin limit).1.held other = bytesOn other before) := by
  have hroom : Sinks.HasRoom ⟨.empty (some (limit .out)), .empty (some (limit .err))⟩ limit := by
    intro stream
    cases stream <;> rfl
  have hempty : ∀ stream, Sinks.held ⟨.empty (some (limit .out)), .empty (some (limit .err))⟩
      stream = [] := by
    intro stream
    cases stream <;> rfl
  have hcases := Sinks.writeAll_limited hroom t.writes
  unfold deliverWithin deliver
  rcases hw : Sinks.writeAll ⟨.empty (some (limit .out)), .empty (some (limit .err))⟩ t.writes with
    ⟨s, done⟩
  rw [hw] at hcases
  rcases hcases with ⟨rfl, hfits, hall⟩ | ⟨rfl, before, stream, hfills, hall⟩
  · refine .inl ⟨hfits, rfl, fun stream => ?_⟩
    rw [hall, hempty, List.nil_append]
  · refine .inr ⟨rfl, before, stream, hfills, fun other => ?_⟩
    rw [hall, hempty, List.nil_append]

/-- **What becomes of a transcript for every pair of limits**, compared with its delivery without
limits. -/
structure KeepsPrefixes (t : Transcript α) : Prop where
  /-- Either sink holds a first part of what it would hold without limits. -/
  isPrefix : ∀ limit stream,
    (t.deliverWithin limit).1.held stream <+: (t.deliver none none).1.held stream
  /-- There is a failure exactly if one of the sinks is too small. -/
  full_iff : ∀ limit, (t.deliverWithin limit).2 = .error .full ↔
    ∃ stream, limit stream < ((t.deliver none none).1.held stream).length
  /-- In a failure one sink is full, and both of them hold what was to be written before the byte for
  which it has no room, and nothing that was to be written later. -/
  stops : ∀ limit, (t.deliverWithin limit).2 = .error .full →
    ∃ before stream, FillsUp limit (trace t.writes) before stream ∧
      (t.deliverWithin limit).1.held stream =
        ((t.deliver none none).1.held stream).take (limit stream) ∧
      ∀ other, (t.deliverWithin limit).1.held other = bytesOn other before
  /-- Without a failure the limits make no difference. -/
  same : ∀ limit, (t.deliverWithin limit).2 ≠ .error .full →
    (t.deliverWithin limit).2 = (t.deliver none none).2 ∧
      ∀ stream, (t.deliverWithin limit).1.held stream = (t.deliver none none).1.held stream

/-- **A transcript that is not itself about a full sink keeps prefixes.** -/
theorem keepsPrefixes {t : Transcript α} (h : t.outcome ≠ .error .full) : t.KeepsPrefixes := by
  constructor
  case isPrefix =>
    intro limit stream
    rw [held_deliver_unbounded]
    rcases t.deliverWithin_cases limit with ⟨-, -, hall⟩ | ⟨-, before, full, hfills, hall⟩
    · exact ⟨[], (List.append_nil _).trans (hall stream)⟩
    · rw [hall]
      exact hfills.isPrefix stream
  case full_iff =>
    intro limit
    simp only [held_deliver_unbounded]
    rcases t.deliverWithin_cases limit with ⟨hfits, hok, -⟩ | ⟨hfull, before, stream, hfills, -⟩
    · refine iff_of_false (hok ▸ h) fun ⟨stream, hlt⟩ => ?_
      have := hfits stream
      omega
    · exact iff_of_true hfull ⟨stream, hfills.lt_length⟩
  case stops =>
    intro limit hfull
    rcases t.deliverWithin_cases limit with ⟨-, hok, -⟩ | ⟨-, before, stream, hfills, hall⟩
    · exact absurd (hok ▸ hfull) h
    · refine ⟨before, stream, hfills, ?_, hall⟩
      rw [hall, held_deliver_unbounded, ← hfills.full]
      exact List.prefix_iff_eq_take.1 (hfills.isPrefix stream)
  case same =>
    intro limit hne
    rcases t.deliverWithin_cases limit with ⟨-, hok, hall⟩ | ⟨hfull, -⟩
    · refine ⟨by rw [hok, deliver_unbounded], fun stream => ?_⟩
      rw [hall, held_deliver_unbounded]
    · exact absurd hfull hne

end Transcript

end Abacus
