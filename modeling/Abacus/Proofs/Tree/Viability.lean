import Abacus.Proofs.Tree.Brackets

/-!
# Sources that can be completed

Text that is typed line by line may be unfinished or wrong. A source is unfinished if some brackets
are still open, and closing them completes it; any other fault stays, whatever is typed after it.
The stack of open brackets tells the two apart. It depends on the characters of the source only: a
token may still grow when text is appended, but no bracket is ever part of a longer token.

Headlines:
* `standing_build`: the stack of open brackets decides how parsing ends.
* `openAfter_of_lexes`: the brackets among the tokens are those among the characters.
* `standing_append_closers`: closing what is open completes an unfinished source.
* `exists_completion_iff`, `unclosed_iff_completable`: some continuation of a source parses exactly if
  the source itself does or only lacks closing brackets.
-/

namespace Abacus

/-! ## The stack of open brackets -/

/-- What a token of the given kind does to the open brackets, the innermost first. A closing bracket
that does not fit has no result. -/
def Token.Kind.act : Kind → List Bracket → Option (List Bracket)
  | number, stack | symbol, stack => some stack
  | opener b, stack => some (b :: stack)
  | closer _, [] => none
  | closer b, b' :: stack => if b = b' then some stack else none

namespace Tree

open Token (Kind isLexical Lexes)

/-- The brackets that are open after tokens of the given kinds, if every closing bracket fits. -/
def openAfter (stack : List Bracket) : List Kind → Option (List Bracket)
  | [] => some stack
  | kind :: kinds => (kind.act stack).bind fun stack => openAfter stack kinds

theorem openAfter_append (stack : List Bracket) (ks ls : List Kind) :
    openAfter stack (ks ++ ls) = (openAfter stack ks).bind fun stack => openAfter stack ls := by
  induction ks generalizing stack with
  | nil => rfl
  | cons k ks ih =>
    simp only [List.cons_append, openAfter, Option.bind_assoc]
    cases k.act stack with
    | none => rfl
    | some stack => exact ih stack

/-- Closing what is open, the innermost first, leaves nothing open. -/
theorem openAfter_closers (stack : List Bracket) :
    openAfter stack (stack.map Kind.closer) = some [] := by
  induction stack with
  | nil => rfl
  | cons b stack ih =>
    rw [List.map_cons, openAfter, Kind.act, if_pos rfl]
    exact ih

/-! ## How parsing ends -/

/-- What is to be made of a source. -/
inductive Standing where
  | complete
  /-- Some brackets are open. -/
  | unfinished
  | faulty
  deriving DecidableEq, Repr

namespace Standing

/-- The standing of a source whose brackets leave the given stack. -/
def ofStack : Option (List Bracket) → Standing
  | some [] => complete
  | some (_ :: _) => unfinished
  | none => faulty

/-- The standing of a source by the result of parsing it. -/
def ofResult {α : Type} : Except ParseError α → Standing
  | .ok _ => complete
  | .error (.unclosedDelimiter ..) => unfinished
  | .error _ => faulty

variable {α : Type} {result : Except ParseError α}

theorem ofResult_eq_complete_iff : ofResult result = complete ↔ ∃ a, result = .ok a := by
  cases result with
  | ok a => simp [ofResult]
  | error e => cases e <;> simp [ofResult]

theorem ofResult_eq_unfinished_iff :
    ofResult result = unfinished ↔ ∃ opener span, result = .error (.unclosedDelimiter opener span) := by
  cases result with
  | ok a => simp [ofResult]
  | error e => cases e <;> simp [ofResult]

theorem ofResult_map {β : Type} (f : α → β) : ofResult (result.map f) = ofResult result := by
  cases result with
  | ok a => rfl
  | error e => cases e <;> rfl

end Standing

/-- **The stack of open brackets decides how parsing ends.** -/
theorem standing_build (ts : List Token) (items : List ParseTree) (openings : List Opening) :
    Standing.ofResult (build ts items openings) =
      .ofStack (openAfter (openings.map Opening.bracket) (ts.map Token.kind)) := by
  induction ts generalizing items openings with
  | nil => cases openings <;> rfl
  | cons t ts ih =>
    rw [List.map_cons, openAfter]
    cases hk : t.kind with
    | number =>
      rw [build_number hk]
      exact ih _ openings
    | symbol =>
      rw [build_symbol hk]
      exact ih _ openings
    | opener b =>
      rw [build_opener hk]
      exact ih [] (⟨b, t, items⟩ :: openings)
    | closer b =>
      cases openings with
      | nil =>
        rw [build_closer_nil hk]
        rfl
      | cons o openings =>
        rw [List.map_cons, Kind.act]
        by_cases hb : b = o.bracket
        · subst hb
          rw [build_closer hk, if_pos rfl]
          exact ih _ openings
        · rw [build_closer_of_ne hk hb, if_neg hb]
          rfl

/-! ## From tokens to characters -/

/-- Digits and minus signs do nothing to the open brackets. -/
theorem openAfter_of_number {cs : List Char} (h : Kind.number.Spells cs) (stack : List Bracket)
    (ks : List Kind) :
    openAfter stack (cs.filterMap Kind.ofChar? ++ ks) = openAfter stack ks := by
  have hdigits : ∀ ds : List Char, (∀ d ∈ ds, d.isDigit = true) → ds.filterMap Kind.ofChar? = [] := by
    intro ds hds
    rw [List.filterMap_eq_nil_iff]
    intro d hd
    have hdigit := hds d hd
    unfold Kind.ofChar?
    split
    iterate 8 cases hdigit
    rfl
  obtain ⟨ds, -, hds, rfl | rfl⟩ := h
  · rw [hdigits _ hds, List.nil_append]
  · rw [List.filterMap_cons_some (show Kind.ofChar? '-' = some .symbol from rfl), hdigits ds hds]
    rfl

/-- A token does to the open brackets what its characters do. -/
theorem openAfter_of_lexeme? {c : Char} {cs more : List Char} {kind : Kind}
    (h : Token.lexeme? c cs = some (kind, more)) (stack : List Bracket) (ks : List Kind) :
    openAfter stack ((c :: more).filterMap Kind.ofChar? ++ ks) = openAfter stack (kind :: ks) := by
  by_cases hn : kind = .number
  · subst hn
    exact openAfter_of_number (Token.spells_of_lexeme? h) stack ks
  · unfold Token.lexeme? at h
    split at h
    · cases h
      exact absurd rfl hn
    · obtain ⟨kind', hk, he⟩ := Option.map_eq_some_iff.1 h
      cases he
      rw [List.filterMap_cons_some hk]
      rfl

/-- **The open brackets can be read off the characters**, without looking for the ends of tokens. -/
theorem openAfter_of_lexes {offset : Nat} {chars : List Char} {tokens : List Token}
    (h : Lexes offset chars tokens) (stack : List Bracket) :
    openAfter stack (chars.filterMap Kind.ofChar?) = openAfter stack (tokens.map Token.kind) := by
  induction h generalizing stack with
  | nil => rfl
  | blank hc _ ih => rw [List.filterMap_cons_none (Token.ofChar?_of_isBlank hc), ih]
  | @token offset c cs more kind tokens hc hm _ ih =>
    conv => lhs; rw [← Token.append_drop_of_lexeme? hm, ← List.cons_append]
    rw [List.filterMap_append, openAfter_of_lexeme? hm, List.map_cons, openAfter, openAfter]
    congr 1
    exact funext ih

/-! ## Whole sources -/

/-- The brackets that are open at the end of some characters. -/
def openBrackets (chars : List Char) : Option (List Bracket) :=
  openAfter [] (chars.filterMap Kind.ofChar?)

theorem standing_parse {source : String} (h : ∀ c ∈ source.toList, isLexical c = true) :
    Standing.ofResult (parse source) = .ofStack (openBrackets source.toList) := by
  obtain ⟨tokens, hlex⟩ := Token.exists_lex_eq_ok_iff.2 h
  have hbuild := standing_build tokens [] []
  rw [List.map_nil, ← openAfter_of_lexes (Token.lex_eq_ok_iff.1 hlex)] at hbuild
  rw [parse_of_lex hlex, Standing.ofResult_map, hbuild, openBrackets]

/-- A character outside the alphabet is a fault. -/
theorem isLexical_of_standing {source : String}
    (h : Standing.ofResult (parse source) ≠ .faulty) : ∀ c ∈ source.toList, isLexical c = true := by
  rw [← Token.exists_lex_eq_ok_iff]
  cases hlex : Token.lex source with
  | ok tokens => exact ⟨tokens, rfl⟩
  | error e =>
    obtain ⟨found, span, rfl⟩ := Token.exists_unexpectedChar_of_lex hlex
    refine absurd ?_ h
    rw [parse, hlex]
    rfl

/-- **What is not faulty stays so** when text at its end is taken away. -/
theorem standing_ne_faulty_of_append {source continuation : String}
    (h : Standing.ofResult (parse (source ++ continuation)) ≠ .faulty) :
    Standing.ofResult (parse source) ≠ .faulty := by
  have hlexical := isLexical_of_standing h
  rw [standing_parse hlexical, String.toList_append, openBrackets, List.filterMap_append,
    openAfter_append] at h
  rw [String.toList_append, List.forall_mem_append] at hlexical
  rw [standing_parse hlexical.1, openBrackets]
  intro hfaulty
  cases ho : openAfter [] (source.toList.filterMap Kind.ofChar?) with
  | none =>
    rw [ho] at h
    exact h rfl
  | some stack =>
    rw [ho] at hfaulty
    cases stack <;> cases hfaulty

/-- The text that closes open brackets, the innermost first. -/
def closers (stack : List Bracket) : String := .ofList (stack.map Bracket.closer)

theorem filterMap_closers (stack : List Bracket) :
    (closers stack).toList.filterMap Kind.ofChar? = stack.map Kind.closer := by
  rw [closers, String.toList_ofList]
  induction stack with
  | nil => rfl
  | cons b stack ih =>
    have hb : Kind.ofChar? b.closer = some (.closer b) := by cases b <;> rfl
    rw [List.map_cons, List.filterMap_cons_some hb, ih, List.map_cons]

/-- **Closing what is open completes a source.** -/
theorem standing_append_closers {source : String} {stack : List Bracket}
    (h : ∀ c ∈ source.toList, isLexical c = true)
    (ho : openBrackets source.toList = some stack) :
    Standing.ofResult (parse (source ++ closers stack)) = .complete := by
  have hclosers : ∀ c ∈ (closers stack).toList, isLexical c = true := by
    rw [closers, String.toList_ofList, List.forall_mem_map]
    intro b _
    cases b <;> rfl
  rw [standing_parse, openBrackets, String.toList_append, List.filterMap_append,
    openAfter_append, filterMap_closers]
  · rw [openBrackets] at ho
    rw [ho, Option.bind_some, openAfter_closers]
    rfl
  · rw [String.toList_append, List.forall_mem_append]
    exact ⟨h, hclosers⟩

/-- A source can be completed exactly if it has no fault but open brackets. -/
theorem exists_completion_iff {source : String} :
    (∃ continuation tree, parse (source ++ continuation) = .ok tree) ↔
      Standing.ofResult (parse source) ≠ .faulty := by
  constructor
  · rintro ⟨continuation, tree, h⟩
    have hne : Standing.ofResult (parse (source ++ continuation)) ≠ .faulty := by
      rw [h]
      exact nofun
    exact standing_ne_faulty_of_append hne
  · intro h
    have hlexical := isLexical_of_standing h
    rw [standing_parse hlexical] at h
    cases ho : openBrackets source.toList with
    | none =>
      rw [ho] at h
      exact absurd rfl h
    | some stack =>
      obtain ⟨tree, htree⟩ :=
        Standing.ofResult_eq_complete_iff.1 (standing_append_closers hlexical ho)
      exact ⟨closers stack, tree, htree⟩

/-- **An unclosed bracket is the one fault that more text can repair.** Some continuation of a source
parses exactly if the source parses or ends inside of a list; so an unclosed bracket is reported for
the sources that are not complete but can be completed, and with every other fault no continuation
parses. -/
theorem unclosed_iff_completable (source : String) :
    ((∃ continuation tree, parse (source ++ continuation) = .ok tree) ↔
      (∃ tree, parse source = .ok tree) ∨
        ∃ opener span, parse source = .error (.unclosedDelimiter opener span)) ∧
    ((∃ opener span, parse source = .error (.unclosedDelimiter opener span)) ↔
      (∀ tree, parse source ≠ .ok tree) ∧
        ∃ continuation tree, parse (source ++ continuation) = .ok tree) ∧
    ∀ e, parse source = .error e → (∀ opener span, e ≠ .unclosedDelimiter opener span) →
      ∀ continuation, ∃ e', parse (source ++ continuation) = .error e' := by
  rw [exists_completion_iff, ← Standing.ofResult_eq_complete_iff,
    ← Standing.ofResult_eq_unfinished_iff]
  refine ⟨?_, ?_, fun e he hne continuation => ?_⟩
  · cases Standing.ofResult (parse source) <;> simp
  · have hcomplete : (∀ tree, parse source ≠ .ok tree) ↔
        Standing.ofResult (parse source) ≠ .complete := by
      rw [Ne, Standing.ofResult_eq_complete_iff, not_exists]
    rw [hcomplete]
    cases Standing.ofResult (parse source) <;> simp
  · cases htree : parse (source ++ continuation) with
    | error e' => exact ⟨e', rfl⟩
    | ok tree =>
      refine absurd (exists_completion_iff.1 ⟨continuation, tree, htree⟩) (not_not_intro ?_)
      rw [he]
      cases e with
      | unclosedDelimiter opener span => exact absurd rfl (hne opener span)
      | unexpectedChar | unmatchedClose | mismatchedClose => rfl

end Tree

end Abacus
