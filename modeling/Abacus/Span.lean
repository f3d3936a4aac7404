/-!
# Spans

Half-open ranges of byte offsets into a source. Offsets are 32-bit; one that does not fit is cut
down to the largest offset.

Model of `Span`: `from_range` (`ofRange`), `point`, `len` (`length?`), `is_empty`, `merge`, the
default (`origin`) and the display (`print`).

Out of scope: the length of a span that starts behind its end, which depends on how the program is
built, and hashes.

Headline: `Span.ofRange_eq`, a range whose ends fit is kept as it is.
-/

namespace Abacus

/-- A half-open range of byte offsets. The start may lie behind the end. -/
structure Span where
  start : UInt32
  stop : UInt32
  deriving DecidableEq, Repr, Inhabited

namespace Span

/-- The largest offset. -/
def limit : Nat := UInt32.size - 1

/-- The span of a range, with ends past the limit cut down to it. -/
def ofRange (start stop : Nat) : Span := ⟨UInt32.ofNatClamp start, UInt32.ofNatClamp stop⟩

/-- The empty span at an offset. -/
def point (offset : UInt32) : Span := ⟨offset, offset⟩

/-- The empty span at offset zero. -/
def origin : Span := point 0

/-- From the smaller start to the larger end. -/
def merge (s t : Span) : Span := ⟨min s.start t.start, max s.stop t.stop⟩

/-- Whether a span starts where it ends. -/
def isEmpty (s : Span) : Bool := s.start == s.stop

/-- The number of bytes, for a span that does not start behind its end. -/
def length? (s : Span) : Option Nat :=
  if s.start ≤ s.stop then some (s.stop.toNat - s.start.toNat) else none

/-- How a span is written: its ends with two dots between them. -/
def print (s : Span) : String := s.start.toNat.repr ++ ".." ++ s.stop.toNat.repr

/-! ## Laws -/

/-- Spans are equal if they have the same ends. -/
theorem eq_iff {s t : Span} :
    s = t ↔ s.start.toNat = t.start.toNat ∧ s.stop.toNat = t.stop.toNat := by
  rw [UInt32.toNat_inj, UInt32.toNat_inj]
  cases s
  cases t
  exact mk.injEq .. ▸ Iff.rfl

theorem toNat_clamp (n : Nat) : (UInt32.ofNatClamp n).toNat = min n limit := by
  unfold UInt32.ofNatClamp limit
  split
  · next h =>
    simp only [UInt32.toNat_ofNatLT]
    simp only [UInt32.size] at h ⊢
    omega
  · next h =>
    simp only [UInt32.size] at h ⊢
    simp
    omega

theorem toNat_start_ofRange (start stop : Nat) : (ofRange start stop).start.toNat = min start limit :=
  toNat_clamp start

theorem toNat_stop_ofRange (start stop : Nat) : (ofRange start stop).stop.toNat = min stop limit :=
  toNat_clamp stop

/-- Ends within the limit are kept. -/
theorem ofRange_eq {start stop : Nat} (h : start ≤ limit) (h' : stop ≤ limit) :
    (ofRange start stop).start.toNat = start ∧ (ofRange start stop).stop.toNat = stop := by
  rw [toNat_start_ofRange, toNat_stop_ofRange]
  omega

/-- A merged span starts where the first of the two does. -/
theorem toNat_start_merge (s t : Span) :
    (s.merge t).start.toNat = min s.start.toNat t.start.toNat := by
  change (if s.start ≤ t.start then s.start else t.start).toNat = _
  split
  · next h =>
    have := UInt32.le_iff_toNat_le.1 h
    omega
  · next h =>
    have := mt UInt32.le_iff_toNat_le.2 h
    omega

/-- A merged span ends where the last of the two does. -/
theorem toNat_stop_merge (s t : Span) :
    (s.merge t).stop.toNat = max s.stop.toNat t.stop.toNat := by
  change (if s.stop ≤ t.stop then t.stop else s.stop).toNat = _
  split
  · next h =>
    have := UInt32.le_iff_toNat_le.1 h
    omega
  · next h =>
    have := mt UInt32.le_iff_toNat_le.2 h
    omega

theorem length?_eq_some_iff {s : Span} {n : Nat} :
    s.length? = some n ↔ s.start.toNat + n = s.stop.toNat := by
  unfold length?
  split
  · next h =>
    have := UInt32.le_iff_toNat_le.1 h
    simp only [Option.some_inj]
    omega
  · next h =>
    have := mt UInt32.le_iff_toNat_le.2 h
    simp only [reduceCtorEq, false_iff]
    omega

end Span

end Abacus
