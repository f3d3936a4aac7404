import Abacus.Proofs.Token.Strays
import Abacus.Proofs.Tree.Brackets

/-!
# The place of a fault

A fault tells of one character of its source, whichever of the four kinds it is of: a stray, or the
bracket at which the scan stops. Nothing but the alphabet stands before that character. Before a
stray this is so because it is the first one, and in a source whose brackets are looked at there is
no stray at all. The alphabet lies below 128, so offsets in bytes and in characters are the same up
to the place of a fault, and only there: the end of the span counts the bytes of a stray.

Headlines:
* `parse_eq_error_iff`: where faults come from.
* `exists_coversAt`: the character at the span of a fault, in a source of any length.
* `CoversAt.stop_le_length_iff`: when the span ends in the source, counted in characters.
* `exists_faultAt`: the character that a fault tells of, and what stands before it.
* `FaultAt.start_eq_length`: a fault starts at the same offset in bytes and in characters.
* `isBlank_of_mem_named`: no character that a fault names is a blank.
-/

namespace Abacus

/-- The characters that the message of a fault names. -/
def ParseError.named : ParseError → List Char
  | unexpectedChar found _ => [found]
  | unclosedDelimiter opener _ => [opener]
  | unmatchedClose found _ => [found]
  | mismatchedClose expected found _ => [expected, found]

namespace Tree

/-- The span of `e` is the range of the character between `before` and `after`, as far as offsets
go, and the alphabet is all that stands before it. A stray is named by its fault wherever it stands,
and a bracket if the source is not too long. -/
structure CoversAt (source : String) (e : ParseError) (before : String) (c : Char)
    (after : String) : Prop where
  source_eq : source = before ++ c.toString ++ after
  lexical : ∀ d ∈ before.toList, Token.isLexical d = true
  blank : Token.isBlank c = false
  span : e.span = .ofRange before.utf8ByteSize (before.utf8ByteSize + c.utf8Size)
  stray : Token.isLexical c = false → e = .unexpectedChar c e.span
  character : source.utf8ByteSize ≤ Span.limit → e.character = c

/-- `e` tells of the character between `before` and `after`, and the alphabet is all that stands
before it. -/
structure FaultAt (source : String) (e : ParseError) (before after : String) : Prop where
  source_eq : source = before ++ e.character.toString ++ after
  lexical : ∀ c ∈ before.toList, Token.isLexical c = true
  start : e.span.start.toNat = before.utf8ByteSize
  stop : e.span.stop.toNat = before.utf8ByteSize + e.character.utf8Size

/-! ## Where faults come from -/

/-- **A fault is that of the lexer, or else that at which the scan of the brackets stops.** -/
theorem parse_eq_error_iff {source : String} {e : ParseError} :
    parse source = .error e ↔ Token.lex source = .error e ∨
      ∃ tokens, Token.lex source = .ok tokens ∧ (scan [] tokens).error? = some e := by
  cases hlex : Token.lex source with
  | error fault => simp [parse, hlex]
  | ok tokens =>
    have hb : build tokens [] [] = .error e ↔ (scan [] tokens).error? = some e := build_eq_error_iff
    rw [parse_of_lex hlex]
    simp only [reduceCtorEq, false_or, Except.ok.injEq, exists_eq_left', ← hb]
    cases build tokens [] [] <;> simp [Except.map]

/-- The fault of a source with a stray, whatever its brackets are. -/
theorem parse_of_stray {before after : String} {c : Char}
    (hbefore : ∀ d ∈ before.toList, Token.isLexical d = true) (hc : Token.isLexical c = false) :
    parse (before ++ c.toString ++ after) = .error (.unexpectedChar c
      (.ofRange before.utf8ByteSize (before.utf8ByteSize + c.utf8Size))) :=
  parse_eq_error_iff.2 (.inl (Token.lex_of_stray hbefore hc))

/-! ## What stands before a fault -/

/-- A fault of the lexer covers the first stray. -/
theorem exists_coversAt_of_lex {source : String} {e : ParseError}
    (he : Token.lex source = .error e) : ∃ before c after, CoversAt source e before c after := by
  obtain ⟨d, hd, hstray⟩ := Token.exists_lex_eq_error_iff.1 ⟨e, he⟩
  obtain ⟨before, c, after, rfl, hbefore, hc⟩ := Token.exists_append_of_stray hd hstray
  have hlexical : ∀ d ∈ before.toList, Token.isLexical d = true :=
    fun d hd => Token.isLexical_iff.2 (hbefore d hd)
  have hfalse : Token.isLexical c = false := Bool.eq_false_iff.2 (mt Token.isLexical_iff.1 hc)
  rw [Token.lex_of_stray hlexical hfalse] at he
  cases he
  exact ⟨before, c, after, rfl, hlexical, (Token.isLexical_eq_false_iff.1 hfalse).1, rfl,
    fun _ => rfl, fun _ => rfl⟩

/-- A fault of the scan covers the bracket at which the scan stops. -/
theorem exists_coversAt_of_scan {source : String} {tokens : List Token}
    (hlex : Token.lex source = .ok tokens) {e : ParseError}
    (he : (scan [] tokens).error? = some e) :
    ∃ before c after, CoversAt source e before c after := by
  obtain ⟨t, ht, hspan, hcharacter⟩ := Verdict.exists_culprit he
  obtain ⟨hbracket, hmem | ⟨p, hp, -⟩⟩ := kind_of_culprit (fun p hp => by cases hp) ht
  · have hlexes := Token.lex_eq_ok_iff.1 hlex
    obtain ⟨pre, mid, post, hsource, htoken, hspells, -⟩ := hlexes.exists_eq_ofChars hmem
    obtain ⟨c, rfl⟩ := exists_eq_singleton_of_isBracket hbracket hspells
    rw [Nat.zero_add] at htoken
    have hpre : pre ⊆ source.toList := fun d hd => by simp [hsource, hd]
    have hc : Token.isLexical c = true := Token.isLexical_of_spells hspells List.mem_cons_self
    refine ⟨.ofList pre, c, .ofList post, ?_, ?_,
      Token.isBlank_eq_false_of_spells hspells List.mem_cons_self, ?_, fun hstray => ?_,
      fun hl => ?_⟩
    · rw [← String.toList_inj, hsource]
      simp
    · rw [String.toList_ofList]
      exact fun d hd => hlexes.isLexical d (hpre hd)
    · rw [hspan, htoken, hlexes.utf8ByteSize_ofList hpre, Token.utf8Size_of_isLexical hc]
      rfl
    · rw [hc] at hstray
      cases hstray
    · have hsize := Token.utf8ByteSize_of_lex hlex
      rw [hsource, List.length_append, List.length_append] at hsize
      rw [hcharacter, Token.firstChar, htoken, Token.toList_text_ofChars (by omega)]
      rfl
  · cases hp

/-- **The span of a fault covers one character of the source**, with nothing but the alphabet before
it. -/
theorem exists_coversAt {source : String} {e : ParseError} (he : parse source = .error e) :
    ∃ before c after, CoversAt source e before c after := by
  rcases parse_eq_error_iff.1 he with hlex | ⟨tokens, hlex, hscan⟩
  · exact exists_coversAt_of_lex hlex
  · exact exists_coversAt_of_scan hlex hscan

namespace CoversAt

variable {source before after : String} {e : ParseError} {c : Char}

theorem length_eq (h : CoversAt source e before c after) :
    source.toList.length = before.toList.length + 1 + after.toList.length := by
  rw [h.source_eq, String.toList_append, String.toList_append, List.length_append,
    List.length_append, Char.toString_eq_singleton, String.toList_singleton, List.length_singleton]

theorem start_eq (h : CoversAt source e before c after) :
    e.span.start.toNat = min before.toList.length Span.limit := by
  rw [h.span, Span.toNat_start_ofRange, Token.utf8ByteSize_of_isLexical h.lexical]

theorem stop_eq (h : CoversAt source e before c after) :
    e.span.stop.toNat = min (before.toList.length + c.utf8Size) Span.limit := by
  rw [h.span, Span.toNat_stop_ofRange, Token.utf8ByteSize_of_isLexical h.lexical]

/-- **The span of a fault ends in the source**, counted in characters, if behind the character there
is at least one more for each of its bytes but the first. -/
theorem stop_le_length_iff (h : CoversAt source e before c after) :
    e.span.stop.toNat ≤ source.toList.length ↔
      c.utf8Size ≤ after.toList.length + 1 ∨ Span.limit ≤ source.toList.length := by
  rw [h.stop_eq, h.length_eq]
  omega

end CoversAt

/-- **A fault tells of one character of the source**, with nothing but the alphabet before it. -/
theorem exists_faultAt {source : String} (hl : source.utf8ByteSize ≤ Span.limit) {e : ParseError}
    (he : parse source = .error e) : ∃ before after, FaultAt source e before after := by
  obtain ⟨before, c, after, h⟩ := exists_coversAt he
  have hcharacter := h.character hl
  have hsize := congrArg String.utf8ByteSize h.source_eq
  rw [String.utf8ByteSize_append, String.utf8ByteSize_append, Char.toString_eq_singleton,
    String.utf8ByteSize_singleton] at hsize
  have hbefore : before.utf8ByteSize ≤ Span.limit := by omega
  have hstop : before.utf8ByteSize + c.utf8Size ≤ Span.limit := by omega
  obtain ⟨hstart, hstop⟩ := Span.ofRange_eq hbefore hstop
  rw [← h.span] at hstart hstop
  exact ⟨before, after, hcharacter ▸ h.source_eq, h.lexical, hstart, hcharacter ▸ hstop⟩

namespace FaultAt

variable {source before after : String} {e : ParseError}

/-- What stands before a fault is ASCII. -/
theorem ascii (h : FaultAt source e before after) : ∀ c ∈ before.toList, c.toNat < 128 := by
  intro c hc
  have hsize := Char.utf8Size_eq_one_iff.1 (Token.utf8Size_of_isLexical (h.lexical c hc))
  exact Nat.lt_of_le_of_lt (UInt32.le_iff_toNat_le.1 hsize) (by decide)

/-- **A fault starts at the same offset in bytes and in characters.** -/
theorem start_eq_length (h : FaultAt source e before after) :
    e.span.start.toNat = before.toList.length := by
  rw [h.start, Token.utf8ByteSize_of_isLexical h.lexical]

/-- The character that a fault tells of is the one at the start of its span. -/
theorem getElem?_start (h : FaultAt source e before after) :
    source.toList[e.span.start.toNat]? = some e.character := by
  rw [h.start_eq_length, h.source_eq, String.toList_append, String.toList_append,
    Char.toString_eq_singleton, String.toList_singleton, List.append_assoc, List.singleton_append,
    List.getElem?_append_right (Nat.le_refl _), Nat.sub_self, List.getElem?_cons_zero]

end FaultAt

/-! ## What a fault names -/

/-- **No character that a fault names is a blank.** It is a stray or a bracket. -/
theorem isBlank_of_mem_named {source : String} (hl : source.utf8ByteSize ≤ Span.limit)
    {e : ParseError} (he : parse source = .error e) {c : Char} (hc : c ∈ e.named) :
    Token.isBlank c = false := by
  obtain ⟨_, _, _, h⟩ := exists_coversAt he
  have hcharacter : Token.isBlank e.character = false := h.character hl ▸ h.blank
  rcases parse_eq_error_iff.1 he with hlex | ⟨tokens, -, hscan⟩
  · obtain ⟨found, span, rfl⟩ := Token.exists_unexpectedChar_of_lex hlex
    exact List.mem_singleton.1 hc ▸ hcharacter
  · cases hv : scan [] tokens with
    | balanced =>
      rw [hv] at hscan
      cases hscan
    | unmatched t | unclosed t =>
      rw [hv] at hscan
      cases hscan
      exact List.mem_singleton.1 hc ▸ hcharacter
    | mismatched b t =>
      rw [hv] at hscan
      cases hscan
      rcases List.mem_cons.1 hc with rfl | hc
      · cases b <;> decide
      · exact List.mem_singleton.1 hc ▸ hcharacter

end Tree

end Abacus
