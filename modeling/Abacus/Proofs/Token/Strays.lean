import Abacus.Proofs.Token.Concatenation

/-!
# Stray characters

A source is made of blanks, digits, operators and brackets. Any other character is a stray, and the
lexer stops at the first one. No token reaches over a stray, so what stands before it is lexed as it
would be alone, half a number included, and what stands behind it is never looked at.

Headlines:
* `isLexical_iff`: the alphabet written out.
* `lexFrom_of_stray`, `lex_of_stray`: the fault at the first stray, at whatever place it stands.
* `exists_lex_eq_error_iff`: a source with a stray is not lexed, and every other one is.
* `lex_stops_at_first_stray`: there is no other fault, and its span holds the bytes of the stray.
-/

namespace Abacus.Token

/-! ## The alphabet written out -/

/-- The characters that a source may be made of. -/
def alphabet : List Char :=
  [' ', '\t', '\r', '\n', '\x0c', '0', '1', '2', '3', '4', '5', '6', '7', '8', '9',
    '+', '-', '*', '/', '(', ')', '{', '}']

theorem mem_alphabet_of_isDigit {c : Char} (h : c.isDigit = true) : c ∈ alphabet := by
  have hdigits : ∀ n < 10, Char.ofNat (48 + n) ∈ alphabet := by decide
  simp only [Char.isDigit, Bool.and_eq_true, decide_eq_true_eq, ge_iff_le,
    UInt32.le_iff_toNat_le] at h
  have hlow : 48 ≤ c.toNat := h.1
  have hhigh : c.toNat ≤ 57 := h.2
  obtain ⟨n, hn⟩ := Nat.exists_eq_add_of_le hlow
  rw [← Char.ofNat_toNat c, hn]
  exact hdigits n (by omega)

theorem mem_alphabet_of_ofChar? {c : Char} (h : (Kind.ofChar? c).isSome = true) :
    c ∈ alphabet := by
  unfold Kind.ofChar? at h
  split at h
  iterate 8 decide
  cases h

/-- **The alphabet written out.** -/
theorem isLexical_iff {c : Char} : isLexical c = true ↔ c ∈ alphabet := by
  constructor
  · intro h
    simp only [isLexical, isBlank, Bool.or_eq_true, decide_eq_true_eq] at h
    rcases h with (((((rfl | rfl) | rfl) | rfl) | rfl) | h) | h
    iterate 5 decide
    · exact mem_alphabet_of_isDigit h
    · exact mem_alphabet_of_ofChar? h
  · have hall : alphabet.all isLexical = true := by decide
    exact List.all_eq_true.1 hall c

/-! ## The fault at a stray -/

theorem isLexical_eq_false_iff {c : Char} :
    isLexical c = false ↔ isBlank c = false ∧ c.isDigit = false ∧ Kind.ofChar? c = none := by
  simp [isLexical, and_assoc]

/-- No token starts with a stray. -/
theorem lexeme?_of_stray {c : Char} (h : isLexical c = false) (cs : List Char) :
    lexeme? c cs = none := by
  obtain ⟨-, hdigit, hkind⟩ := isLexical_eq_false_iff.1 h
  have hminus : c ≠ '-' := by
    rintro rfl
    cases hkind
  rw [lexeme?, if_neg (by simp [hdigit, hminus]), hkind, Option.map_none]

/-- **Lexing stops at the first stray**, wherever it stands and whatever stands behind it. -/
theorem lexFrom_of_stray {pre : List Char} {c : Char} (hpre : ∀ d ∈ pre, isLexical d = true)
    (hc : isLexical c = false) (post : List Char) (offset : Nat) (tokens : List Token) :
    lexFrom offset (pre ++ c :: post) tokens = .error (.unexpectedChar c
      (.ofRange (offset + pre.length) (offset + pre.length + c.utf8Size))) := by
  obtain ⟨hblank, hdigit, -⟩ := isLexical_eq_false_iff.1 hc
  -- a stray is no digit, so no number reaches over the place before it
  have hseam : Apart pre (c :: post) := apart_of_noDigitNext (noDigitNext_cons hdigit post)
  obtain ⟨ts, hts⟩ := exists_lexes_of_isLexical hpre offset
  rw [lexFrom_append hseam, lexFrom_eq, hts.lexFrom_eq_ok]
  simp only [Except.map, Except.bind, lexFrom, hblank, lexeme?_of_stray hc, Bool.false_eq_true,
    if_false]

/-- **The fault of a source with a stray.** -/
theorem lex_of_stray {before after : String} {c : Char}
    (hbefore : ∀ d ∈ before.toList, isLexical d = true) (hc : isLexical c = false) :
    lex (before ++ c.toString ++ after) = .error (.unexpectedChar c
      (.ofRange before.utf8ByteSize (before.utf8ByteSize + c.utf8Size))) := by
  rw [lex, String.toList_append, String.toList_append, Char.toString_eq_singleton,
    String.toList_singleton, List.append_assoc, List.singleton_append,
    lexFrom_of_stray hbefore hc, Nat.zero_add, utf8ByteSize_of_isLexical hbefore]

/-! ## The first stray -/

/-- `found` is the first stray of the source, and the bytes at the span are its encoding. -/
def FirstStray (source : String) (found : Char) (span : Span) : Prop :=
  ∃ before after : String, source = before ++ found.toString ++ after ∧
    (∀ c ∈ before.toList, c ∈ alphabet) ∧ found ∉ alphabet ∧
    span.start.toNat = before.utf8ByteSize ∧
    span.stop.toNat = before.utf8ByteSize + found.utf8Size

theorem FirstStray.marks {source : String} {found : Char} {span : Span}
    (h : FirstStray source found span) : span.Marks source found.toString := by
  obtain ⟨before, after, hsource, -, -, hstart, hstop⟩ := h
  refine ⟨before, after, hsource, hstart, ?_⟩
  rw [hstop, Char.toString_eq_singleton, String.utf8ByteSize_singleton]

theorem FirstStray.length?_eq {source : String} {found : Char} {span : Span}
    (h : FirstStray source found span) : span.length? = some found.utf8Size := by
  obtain ⟨before, after, -, -, -, hstart, hstop⟩ := h
  rw [Span.length?_eq_some_iff, hstart, hstop]

/-- The lexer reports the first stray. -/
theorem FirstStray.lex_eq {source : String} {found : Char} {span : Span}
    (h : FirstStray source found span) : lex source = .error (.unexpectedChar found span) := by
  obtain ⟨before, after, rfl, hbefore, hfound, hstart, hstop⟩ := h
  have hstart' := span.start.toNat_lt_size
  have hstop' := span.stop.toNat_lt_size
  have hspan : span = .ofRange before.utf8ByteSize (before.utf8ByteSize + found.utf8Size) := by
    rw [Span.eq_iff, Span.toNat_start_ofRange, Span.toNat_stop_ofRange, Span.limit]
    omega
  rw [lex_of_stray (fun c hc => isLexical_iff.2 (hbefore c hc))
    (Bool.eq_false_iff.2 (mt isLexical_iff.1 hfound)), hspan]

/-- A source with a stray is cut at the first one. -/
theorem exists_append_of_stray {source : String} {c : Char} (hc : c ∈ source.toList)
    (hstray : c ∉ alphabet) : ∃ (before : String) (found : Char) (after : String),
      source = before ++ found.toString ++ after ∧ (∀ d ∈ before.toList, d ∈ alphabet) ∧
        found ∉ alphabet := by
  have hsome : (source.toList.find? fun d => decide (d ∉ alphabet)).isSome = true :=
    List.find?_isSome.2 ⟨c, hc, decide_eq_true hstray⟩
  obtain ⟨found, hfound⟩ := Option.isSome_iff_exists.1 hsome
  obtain ⟨hnot, pre, post, hsource, hpre⟩ := List.find?_eq_some_iff_append.1 hfound
  refine ⟨.ofList pre, found, .ofList post, ?_, fun d hd => ?_, of_decide_eq_true hnot⟩
  · rw [← String.toList_inj, hsource]
    simp
  · rw [String.toList_ofList] at hd
    simpa using hpre d hd

/-- A source with a stray has a first one, at a place that a span can hold if the source is not
too long. -/
theorem exists_firstStray {source : String} (hl : source.utf8ByteSize ≤ Span.limit) {c : Char}
    (hc : c ∈ source.toList) (hstray : c ∉ alphabet) :
    ∃ found span, FirstStray source found span := by
  obtain ⟨before, found, after, hsource, hbefore, hfound⟩ := exists_append_of_stray hc hstray
  have hsize := congrArg String.utf8ByteSize hsource
  rw [String.utf8ByteSize_append, String.utf8ByteSize_append, Char.toString_eq_singleton,
    String.utf8ByteSize_singleton] at hsize
  have hstart : before.utf8ByteSize ≤ Span.limit := by omega
  have hstop : before.utf8ByteSize + found.utf8Size ≤ Span.limit := by omega
  obtain ⟨hstart, hstop⟩ := Span.ofRange_eq hstart hstop
  exact ⟨found, .ofRange _ _, before, after, hsource, hbefore, hfound, hstart, hstop⟩

/-- **Lexing fails exactly on sources with a stray.** -/
theorem exists_lex_eq_error_iff {source : String} :
    (∃ e, lex source = .error e) ↔ ∃ c ∈ source.toList, c ∉ alphabet := by
  have hfails : (∃ e, lex source = .error e) ↔ ¬∃ tokens, lex source = .ok tokens := by
    cases lex source <;> simp
  rw [hfails, exists_lex_eq_ok_iff]
  simp [isLexical_iff]

/-- **Lexing fails exactly at the first stray.** It fails if and only if the source has one. The
fault is then an unexpected character, found is the first stray, and the span holds its one to four
bytes and nothing else. -/
theorem lex_stops_at_first_stray (source : String) :
    ((∃ e, lex source = .error e) ↔ ∃ c ∈ source.toList, c ∉ alphabet) ∧
    (source.utf8ByteSize ≤ Span.limit → ∀ e, lex source = .error e ↔
      ∃ found span, e = .unexpectedChar found span ∧ FirstStray source found span) ∧
    ∀ found span, FirstStray source found span →
      span.Marks source found.toString ∧ ∃ n, span.length? = some n ∧ 1 ≤ n ∧ n ≤ 4 := by
  refine ⟨exists_lex_eq_error_iff, fun hl e => ⟨fun he => ?_, ?_⟩, fun found span h =>
    ⟨h.marks, _, h.length?_eq, found.utf8Size_pos, found.utf8Size_le_four⟩⟩
  · obtain ⟨c, hc, hstray⟩ := exists_lex_eq_error_iff.1 ⟨e, he⟩
    obtain ⟨found, span, h⟩ := exists_firstStray hl hc hstray
    exact ⟨found, span, Except.error.inj (he.symm.trans h.lex_eq), h⟩
  · rintro ⟨found, span, rfl, h⟩
    exact h.lex_eq

/-- A letter of two bytes in the middle of a number, with another stray behind it. -/
theorem lex_stops_at_lambda :
    "(-7λ0 €".utf8ByteSize ≤ Span.limit ∧
      lex "(-7λ0 €" = .error (.unexpectedChar 'λ' (.ofRange 3 5)) := by
  have hl : "(-7λ0 €".utf8ByteSize ≤ Span.limit := by decide
  have hbefore : "(-7".toList.all isLexical = true := by decide
  refine ⟨hl, ((lex_stops_at_first_stray _).2.1 hl _).2 ⟨'λ', .ofRange 3 5, rfl, ?_⟩⟩
  exact ⟨"(-7", "0 €", by decide, fun c hc => isLexical_iff.1 (List.all_eq_true.1 hbefore c hc),
    by decide, by decide, by decide⟩

end Abacus.Token
