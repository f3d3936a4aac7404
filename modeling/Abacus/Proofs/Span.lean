import Abacus.Span

/-!
# Arrangements of spans

Spans may be moved together, which does not change how they lie to each other, and they may stand
one after the other, as the tokens of a source and the children of a node do.

Headlines:
* `Span.moveBack_merge`: spans may be moved before or after they are merged.
* `Span.inOrder_append_iff`: spans are in order if those of both parts are and the parts are.
* `Span.InOrder.replace`: a run of spans may be replaced by spans with ends among theirs.
* `Span.merge_of_inOrder`: a merged span reaches from the first span to the second one.
-/

namespace Abacus.Span

/-! ## Moving -/

/-- A span moved towards the start of the source. -/
def moveBack (s : Span) (distance : UInt32) : Span :=
  ⟨s.start - distance, s.stop - distance⟩

theorem toNat_moveBack {s : Span} {k : UInt32} (h : k ≤ s.start ∧ k ≤ s.stop) :
    (s.moveBack k).start.toNat = s.start.toNat - k.toNat ∧
      (s.moveBack k).stop.toNat = s.stop.toNat - k.toNat :=
  ⟨UInt32.toNat_sub_of_le _ _ h.1, UInt32.toNat_sub_of_le _ _ h.2⟩

/-- Moving keeps spans in order, so it may be done before or after merging. -/
theorem moveBack_merge {s t : Span} {k : UInt32} (hs : k ≤ s.start ∧ k ≤ s.stop)
    (ht : k ≤ t.start ∧ k ≤ t.stop) :
    (s.merge t).moveBack k = (s.moveBack k).merge (t.moveBack k) := by
  have hmerge : k ≤ (s.merge t).start ∧ k ≤ (s.merge t).stop := by
    simp only [UInt32.le_iff_toNat_le, toNat_start_merge, toNat_stop_merge] at hs ht ⊢
    omega
  obtain ⟨hmstart, hmstop⟩ := toNat_moveBack hmerge
  obtain ⟨hsstart, hsstop⟩ := toNat_moveBack hs
  obtain ⟨htstart, htstop⟩ := toNat_moveBack ht
  rw [eq_iff, hmstart, hmstop, toNat_start_merge, toNat_stop_merge, toNat_start_merge,
    toNat_stop_merge]
  omega

theorem moveBack_ofRange {k start stop : Nat} (hstart : k + start ≤ limit)
    (hstop : k + stop ≤ limit) :
    (ofRange (k + start) (k + stop)).moveBack (.ofNatClamp k) = ofRange start stop := by
  obtain ⟨hs, ht⟩ := ofRange_eq hstart hstop
  have hstart' : start ≤ limit := by omega
  have hstop' : stop ≤ limit := by omega
  obtain ⟨hs', ht'⟩ := ofRange_eq hstart' hstop'
  have hk := toNat_clamp k
  obtain ⟨hms, hmt⟩ := toNat_moveBack (s := ofRange (k + start) (k + stop)) (k := .ofNatClamp k)
    (by rw [UInt32.le_iff_toNat_le, UInt32.le_iff_toNat_le]; omega)
  rw [eq_iff, hms, hmt]
  omega

/-- A span moved towards the end of the source. -/
def moveForward (s : Span) (distance : Nat) : Span :=
  .ofRange (distance + s.start.toNat) (distance + s.stop.toNat)

/-- A range is moved by moving its ends, also past the limit. -/
theorem moveForward_ofRange (k start stop : Nat) :
    (ofRange start stop).moveForward k = ofRange (k + start) (k + stop) := by
  rw [eq_iff, moveForward]
  simp only [toNat_start_ofRange, toNat_stop_ofRange]
  omega

/-! ## One after the other -/

/-- Spans that stand one after the other, and none of which starts behind its end. -/
structure InOrder (spans : List Span) : Prop where
  start_le_stop : ∀ s ∈ spans, s.start ≤ s.stop
  pairwise : spans.Pairwise fun s t => s.stop ≤ t.start

theorem inOrder_nil : InOrder [] := ⟨nofun, .nil⟩

theorem inOrder_append_iff {ss ts : List Span} :
    InOrder (ss ++ ts) ↔ InOrder ss ∧ InOrder ts ∧ ∀ s ∈ ss, ∀ t ∈ ts, s.stop ≤ t.start := by
  constructor
  · rintro ⟨hle, hpair⟩
    obtain ⟨hs, ht⟩ := List.forall_mem_append.1 hle
    obtain ⟨hss, hts, hst⟩ := List.pairwise_append.1 hpair
    exact ⟨⟨hs, hss⟩, ⟨ht, hts⟩, hst⟩
  · rintro ⟨⟨hs, hss⟩, ⟨ht, hts⟩, hst⟩
    exact ⟨List.forall_mem_append.2 ⟨hs, ht⟩, List.pairwise_append.2 ⟨hss, hts, hst⟩⟩

theorem inOrder_singleton {s : Span} : InOrder [s] ↔ s.start ≤ s.stop :=
  ⟨fun h => h.start_le_stop s List.mem_cons_self,
    fun h => ⟨List.forall_mem_singleton.2 h, List.pairwise_singleton _ s⟩⟩

theorem inOrder_cons_iff {s : Span} {ts : List Span} :
    InOrder (s :: ts) ↔ s.start ≤ s.stop ∧ (∀ t ∈ ts, s.stop ≤ t.start) ∧ InOrder ts := by
  rw [← List.singleton_append, inOrder_append_iff, inOrder_singleton, List.forall_mem_singleton]
  exact and_congr_right fun _ => and_comm

/-- Spans in order start with the first one. -/
theorem InOrder.start_le_of_cons {s : Span} {ts : List Span} (h : InOrder (s :: ts)) :
    ∀ t ∈ s :: ts, s.start ≤ t.start := by
  obtain ⟨hs, hst, -⟩ := inOrder_cons_iff.1 h
  exact List.forall_mem_cons.2 ⟨UInt32.le_refl _, fun t ht => UInt32.le_trans hs (hst t ht)⟩

/-- Spans in order end with the last one. -/
theorem InOrder.stop_le_of_concat {ss : List Span} {t : Span} (h : InOrder (ss ++ [t])) :
    ∀ s ∈ ss ++ [t], s.stop ≤ t.stop := by
  obtain ⟨-, ht, hst⟩ := inOrder_append_iff.1 h
  refine List.forall_mem_append.2 ⟨fun s hs => ?_, List.forall_mem_singleton.2 (UInt32.le_refl _)⟩
  exact UInt32.le_trans (hst s hs t List.mem_cons_self) (inOrder_singleton.1 ht)

theorem InOrder.sublist {ss ts : List Span} (h : InOrder ts) (hs : ss.Sublist ts) : InOrder ss :=
  ⟨fun s hmem => h.start_le_stop s (hs.mem hmem), h.pairwise.sublist hs⟩

/-- Every span of `ss` starts where one of `ts` does and ends where one of them does. -/
def EndsAmong (ss ts : List Span) : Prop :=
  ∀ s ∈ ss, (∃ t ∈ ts, s.start = t.start) ∧ ∃ t ∈ ts, s.stop = t.stop

/-- Spans that stand together may be replaced by spans with ends among theirs. -/
theorem InOrder.replace {before ts ss after : List Span} (h : InOrder (before ++ ts ++ after))
    (hs : InOrder ss) (hends : EndsAmong ss ts) : InOrder (before ++ ss ++ after) := by
  obtain ⟨hleft, hafter, hla⟩ := inOrder_append_iff.1 h
  obtain ⟨hbefore, -, hbt⟩ := inOrder_append_iff.1 hleft
  refine inOrder_append_iff.2 ⟨inOrder_append_iff.2 ⟨hbefore, hs, fun b hb s hmem => ?_⟩, hafter, ?_⟩
  · obtain ⟨⟨t, ht, he⟩, -⟩ := hends s hmem
    exact he ▸ hbt b hb t ht
  · refine List.forall_mem_append.2 ⟨fun b hb => hla b (List.mem_append_left ts hb), ?_⟩
    intro s hmem a ha
    obtain ⟨-, t, ht, he⟩ := hends s hmem
    exact he ▸ hla t (List.mem_append_right before ht) a ha

/-- Two spans in order are merged from the start of the first to the end of the second. -/
theorem merge_of_inOrder {s t : Span} (h : InOrder [s, t]) : s.merge t = ⟨s.start, t.stop⟩ := by
  obtain ⟨hs, hst, ht⟩ := inOrder_cons_iff.1 h
  have hst := List.forall_mem_singleton.1 hst
  have ht := inOrder_singleton.1 ht
  rw [UInt32.le_iff_toNat_le] at hs hst ht
  rw [eq_iff, toNat_start_merge, toNat_stop_merge]
  dsimp only
  omega

end Abacus.Span
