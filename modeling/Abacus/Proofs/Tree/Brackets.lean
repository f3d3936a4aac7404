import Abacus.Proofs.Token.Lexing
import Abacus.Proofs.Tree.Descent

/-!
# Faults of brackets

A scan from left to right that looks at brackets only: an opening bracket is pushed, a closing one
must match the top of the stack, and nothing may be left at the end. `Verdict` is what it finds.

Headlines:
* `build_eq_error_iff`: the parser stops with the fault that the scan finds, and only then.
* `kind_of_culprit`: a fault names a bracket among the tokens.
* `parse_agrees_with_scan`: recursive descent, the parser and the scan agree on every source, and
  the place and the characters of a fault are those of one bracket in it.
-/

namespace Abacus

/-- The offending character of a fault. -/
def ParseError.character : ParseError → Char
  | unexpectedChar found _ => found
  | unclosedDelimiter opener _ => opener
  | unmatchedClose found _ => found
  | mismatchedClose _ found _ => found

namespace Tree

/-! ## The scan -/

/-- What a scan of the brackets finds. -/
inductive Verdict where
  | balanced
  /-- A closing bracket where no list is open. -/
  | unmatched (closer : Token)
  /-- A closing bracket of another shape than the innermost opening one. -/
  | mismatched (expected : Bracket) (closer : Token)
  /-- The innermost opening bracket that is still open at the end. -/
  | unclosed (opener : Token)

/-- Scan tokens with a stack of opening brackets, the innermost first. -/
def scan (stack : List (Bracket × Token)) : List Token → Verdict
  | [] =>
    match stack with
    | [] => .balanced
    | (_, o) :: _ => .unclosed o
  | t :: ts =>
    match t.kind with
    | .number | .symbol => scan stack ts
    | .opener b => scan ((b, t) :: stack) ts
    | .closer b =>
      match stack with
      | [] => .unmatched t
      | (b', _) :: stack => if b = b' then scan stack ts else .mismatched b' t

namespace Verdict

/-- The bracket at which a scan stops. -/
def culprit? : Verdict → Option Token
  | balanced => none
  | unmatched t => some t
  | mismatched _ t => some t
  | unclosed t => some t

/-- The fault that is reported for what a scan finds. -/
def error? : Verdict → Option ParseError
  | balanced => none
  | unmatched t => some (.unmatchedClose t.firstChar t.span)
  | mismatched b t => some (.mismatchedClose b.closer t.firstChar t.span)
  | unclosed t => some (.unclosedDelimiter t.firstChar t.span)

theorem error?_eq_none_iff {v : Verdict} : v.error? = none ↔ v = balanced := by
  cases v <;> simp [error?]

/-- The fault is described by the bracket at which the scan stops. -/
theorem exists_culprit {v : Verdict} {e : ParseError} (h : v.error? = some e) :
    ∃ t, v.culprit? = some t ∧ e.span = t.span ∧ e.character = t.firstChar := by
  cases v with
  | balanced => cases h
  | unmatched t | mismatched _ t | unclosed t =>
    cases h
    exact ⟨t, rfl, rfl, rfl⟩

end Verdict

/-! ## The parser stops where the scan does -/

/-- The opening bracket of an open list. -/
def Opening.mark (o : Opening) : Bracket × Token := (o.bracket, o.token)

/-- **The parser stops with the fault that the scan finds.** -/
theorem build_eq_error_iff {ts : List Token} {items : List ParseTree} {openings : List Opening}
    {e : ParseError} : build ts items openings = .error e ↔
      (scan (openings.map Opening.mark) ts).error? = some e := by
  induction ts generalizing items openings with
  | nil => cases openings <;> simp [build, scan, Verdict.error?, Opening.mark]
  | cons t ts ih =>
    cases hk : t.kind with
    | number =>
      rw [build_number hk, ih, scan, hk]
    | symbol =>
      rw [build_symbol hk, ih, scan, hk]
    | opener b =>
      rw [build_opener hk, ih, scan, hk]
      rfl
    | closer b =>
      cases openings with
      | nil =>
        rw [build_closer_nil hk, scan, hk]
        simp [Verdict.error?]
      | cons o openings =>
        by_cases hb : b = o.bracket
        · subst hb
          rw [build_closer hk, ih, scan, hk]
          simp [Opening.mark]
        · rw [build_closer_of_ne hk hb, scan, hk]
          simp [Opening.mark, hb, Verdict.error?]

/-- The scan is balanced exactly if the parser succeeds. -/
theorem scan_eq_balanced_iff {ts : List Token} :
    scan [] ts = .balanced ↔ ∃ exprs, build ts [] [] = .ok exprs := by
  rw [← Verdict.error?_eq_none_iff]
  cases hb : build ts [] [] with
  | ok exprs =>
    simp only [Except.ok.injEq, exists_eq', iff_true]
    cases hs : (scan [] ts).error? with
    | none => rfl
    | some e =>
      have he : build ts [] [] = .error e := build_eq_error_iff.2 hs
      rw [hb] at he
      cases he
  | error e =>
    have hs : (scan [] ts).error? = some e := build_eq_error_iff.1 hb
    simp [hs]

/-! ## The culprit -/

/-- A token that is a bracket. -/
def IsBracket (t : Token) : Prop := ∃ b, t.kind = .opener b ∨ t.kind = .closer b

/-- **A fault names a bracket** among the tokens, or one that was open before. -/
theorem kind_of_culprit {stack : List (Bracket × Token)} {ts : List Token} {t : Token}
    (hstack : ∀ p ∈ stack, IsBracket p.2) (h : (scan stack ts).culprit? = some t) :
    IsBracket t ∧ (t ∈ ts ∨ ∃ p ∈ stack, p.2 = t) := by
  induction ts generalizing stack with
  | nil =>
    cases stack with
    | nil => cases h
    | cons p stack =>
      cases h
      exact ⟨hstack p List.mem_cons_self, .inr ⟨p, List.mem_cons_self, rfl⟩⟩
  | cons u us ih =>
    rw [scan] at h
    cases hk : u.kind with
    | number | symbol =>
      rw [hk] at h
      obtain ⟨hb, hm | hm⟩ := ih hstack h
      · exact ⟨hb, .inl (List.mem_cons_of_mem u hm)⟩
      · exact ⟨hb, .inr hm⟩
    | opener b =>
      rw [hk] at h
      have hu : IsBracket u := ⟨b, .inl hk⟩
      obtain ⟨hb, hm | ⟨p, hp, rfl⟩⟩ := ih (List.forall_mem_cons.2 ⟨hu, hstack⟩) h
      · exact ⟨hb, .inl (List.mem_cons_of_mem u hm)⟩
      · rcases List.mem_cons.1 hp with rfl | hp
        · exact ⟨hb, .inl List.mem_cons_self⟩
        · exact ⟨hb, .inr ⟨p, hp, rfl⟩⟩
    | closer b =>
      rw [hk] at h
      have hu : IsBracket u := ⟨b, .inr hk⟩
      cases stack with
      | nil =>
        cases h
        exact ⟨hu, .inl List.mem_cons_self⟩
      | cons p stack =>
        by_cases hb : b = p.1
        · simp only [hb, if_true] at h
          obtain ⟨hb, hm | ⟨q, hq, rfl⟩⟩ :=
            ih (fun q hq => hstack q (List.mem_cons_of_mem p hq)) h
          · exact ⟨hb, .inl (List.mem_cons_of_mem u hm)⟩
          · exact ⟨hb, .inr ⟨q, List.mem_cons_of_mem p hq, rfl⟩⟩
        · simp only [hb, if_false] at h
          cases h
          exact ⟨hu, .inl List.mem_cons_self⟩

/-- A bracket is spelled with one character. -/
theorem exists_eq_singleton_of_isBracket {t : Token} (h : IsBracket t) {cs : List Char}
    (hs : t.kind.Spells cs) : ∃ c, cs = [c] := by
  obtain ⟨b, hb | hb⟩ := h
  · rw [hb] at hs
    exact ⟨_, hs⟩
  · rw [hb] at hs
    exact ⟨_, hs⟩

/-- The text of a bracket is its one character. -/
theorem text_of_isBracket {t : Token} (h : IsBracket t) (hs : t.kind.Spells t.text.toList) :
    t.text = String.singleton t.firstChar := by
  obtain ⟨c, hc⟩ := exists_eq_singleton_of_isBracket h hs
  rw [← String.toList_inj, Token.firstChar, hc]
  simp

/-! ## Whole sources -/

theorem parse_of_lex {source : String} {tokens : List Token}
    (h : Token.lex source = .ok tokens) :
    parse source = (build tokens [] []).map (ofExprs source.utf8ByteSize) := by
  unfold parse
  rw [h]
  simp only
  cases build tokens [] [] <;> rfl

/-- **The parser agrees with the scan.** Recursive descent and the parser are the same; a lexical
error comes first; otherwise the parser reports the fault at which the scan stops, and has a tree
exactly if there is none. The span of a fault of brackets is that of the bracket at which the scan
stops, and covers just this one character, which is the one that the fault names. -/
theorem parse_agrees_with_scan (source : String) :
    Descent.parse source = parse source ∧
    (∀ e, Token.lex source = .error e → parse source = .error e) ∧
    ∀ tokens, Token.lex source = .ok tokens →
      (∀ e, parse source = .error e ↔ (scan [] tokens).error? = some e) ∧
      ((∃ tree, parse source = .ok tree) ↔ scan [] tokens = .balanced) ∧
      (source.utf8ByteSize ≤ Span.limit → ∀ e, parse source = .error e →
        ∃ t ∈ tokens, (scan [] tokens).culprit? = some t ∧ e.span = t.span ∧
          e.span.Marks source t.text ∧ t.text = String.singleton e.character) := by
  refine ⟨Descent.parse_eq source, fun e he => by simp only [parse, he], fun tokens hlex => ?_⟩
  have herror : ∀ e, parse source = .error e ↔ (scan [] tokens).error? = some e := by
    intro e
    have hb : build tokens [] [] = .error e ↔ (scan [] tokens).error? = some e :=
      build_eq_error_iff
    rw [parse_of_lex hlex, ← hb]
    cases build tokens [] [] <;> simp [Except.map]
  refine ⟨herror, ?_, fun hl e he => ?_⟩
  · rw [scan_eq_balanced_iff, parse_of_lex hlex]
    cases build tokens [] [] <;> simp [Except.map]
  · obtain ⟨t, ht, hspan, hchar⟩ := Verdict.exists_culprit ((herror e).1 he)
    obtain ⟨hbracket, hmem | ⟨p, hp, -⟩⟩ := kind_of_culprit (fun p hp => by cases hp) ht
    · obtain ⟨hmarks, hspells⟩ := Token.marks_of_lex hlex hl hmem
      rw [hchar, hspan]
      exact ⟨t, hmem, ht, rfl, hmarks, text_of_isBracket hbracket hspells⟩
    · cases hp

end Tree

end Abacus
