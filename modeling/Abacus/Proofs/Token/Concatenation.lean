import Abacus.Proofs.Token.Segments

/-!
# Tokens of sources put together

A source followed by another one has the tokens of the first and then those of the second, moved to
the right. The one exception is a number that reaches over the seam: a minus sign or a digit at the
end of the first source goes on with a digit at the start of the second. The lexer carries nothing
but its offset from one token to the next, so the law also says what becomes of a fault.

Headlines:
* `lexeme?_append`: the longest token is not changed by what follows behind the seam.
* `lexFrom_append`: lexing goes on behind the seam as it would at any other place.
* `lex_append`: the tokens of two sources put together.
* `lex_append_blanks`: blanks at the end of a source add nothing.
-/

namespace Abacus.Token

/-! ## The seam -/

/-- No number reaches over the seam between the characters and those after them. -/
def Apart (chars rest : List Char) : Prop :=
  ∀ c ∈ chars.getLast?, c = '-' ∨ c.isDigit = true → NoDigitNext rest

theorem apart_of_noDigitNext {chars rest : List Char} (h : NoDigitNext rest) : Apart chars rest :=
  fun _ _ _ => h

/-- Only the last characters matter. -/
theorem Apart.of_suffix {chars rest tail : List Char} (h : Apart chars rest)
    (ht : tail <:+ chars) : Apart tail rest := by
  obtain ⟨front, rfl⟩ := ht
  intro c hc
  refine h c ?_
  rw [List.getLast?_append, hc]
  rfl

theorem Apart.tail {c : Char} {cs rest : List Char} (h : Apart (c :: cs) rest) : Apart cs rest :=
  h.of_suffix (List.suffix_cons c cs)

/-- Digits that go on a number end before the seam. -/
theorem Apart.takeWhile_isDigit {c : Char} {cs rest : List Char} (h : Apart (c :: cs) rest)
    (hc : c = '-' ∨ c.isDigit = true) :
    (cs ++ rest).takeWhile Char.isDigit = cs.takeWhile Char.isDigit := by
  induction cs generalizing c with
  | nil => exact takeWhile_eq_nil_of_noDigitNext (h c rfl hc)
  | cons d ds ih =>
    by_cases hd : d.isDigit = true
    · rw [List.cons_append, List.takeWhile_cons_of_pos hd, List.takeWhile_cons_of_pos hd,
        ih h.tail (.inr hd)]
    · rw [List.cons_append, List.takeWhile_cons_of_neg hd, List.takeWhile_cons_of_neg hd]

/-- **What stands behind the seam does not change the longest token** before it. -/
theorem lexeme?_append {c : Char} {cs rest : List Char} (h : Apart (c :: cs) rest) :
    lexeme? c (cs ++ rest) = lexeme? c cs := by
  by_cases hc : c = '-' ∨ c.isDigit = true
  · rw [lexeme?, lexeme?, h.takeWhile_isDigit hc]
  · obtain ⟨hminus, hdigit⟩ := not_or.1 hc
    rw [lexeme?, lexeme?, if_neg (by simp [hminus, hdigit]), if_neg (by simp [hminus, hdigit])]

/-! ## Lexing over the seam -/

/-- **Lexing goes on behind the seam** if there was no fault before it. -/
theorem lexFrom_append {chars rest : List Char} (h : Apart chars rest) (offset : Nat)
    (tokens : List Token) :
    lexFrom offset (chars ++ rest) tokens =
      (lexFrom offset chars tokens).bind fun ts =>
        lexFrom (offset + chars.length) rest ts.reverse := by
  induction offset, chars, tokens using lexFrom.induct with
  | case1 offset tokens => simp [lexFrom, Except.bind]
  | case2 offset tokens c cs hc ih =>
    rw [List.cons_append, lexFrom, lexFrom, if_pos hc, if_pos hc, ih h.tail, List.length_cons,
      Nat.add_assoc, Nat.add_comm 1]
  | case3 offset tokens c cs hc kind more hm ih =>
    have hlength := congrArg List.length (append_drop_of_lexeme? hm)
    rw [List.length_append] at hlength
    have hrest : Apart (cs.drop more.length) rest :=
      h.tail.of_suffix (List.drop_suffix more.length cs)
    have hoffset : offset + 1 + more.length + (cs.drop more.length).length =
        offset + (c :: cs).length := by
      rw [List.length_cons]
      omega
    rw [List.cons_append]
    simp only [lexFrom, if_neg hc, lexeme?_append h, hm]
    rw [List.drop_append_of_le_length (by omega), ih hrest, hoffset]
  | case4 offset tokens c cs hc hm =>
    rw [List.cons_append]
    simp only [lexFrom, if_neg hc, lexeme?_append h, hm]
    rfl

theorem Lexes.append {offset : Nat} {chars rest : List Char} {ts us : List Token}
    (h : Lexes offset chars ts) (h' : Lexes (offset + chars.length) rest us)
    (hseam : Apart chars rest) : Lexes offset (chars ++ rest) (ts ++ us) := by
  rw [← lexFrom_eq_ok_iff, lexFrom_append hseam, h.lexFrom_eq_ok]
  change lexFrom _ rest ts.reverse = _
  rw [lexFrom_eq, h'.lexFrom_eq_ok, List.reverse_reverse]
  rfl

/-- **The tokens of two sources put together**: those of the first, and those of the second moved
behind the first. -/
theorem lex_append {s t : String} {ts us : List Token} (hs : lex s = .ok ts) (ht : lex t = .ok us)
    (hseam : Apart s.toList t.toList) (hl : (s ++ t).utf8ByteSize ≤ Span.limit) :
    lex (s ++ t) = .ok (ts ++ us.map (moveForward s.utf8ByteSize)) := by
  have hsize := utf8ByteSize_of_lex hs
  have hsize' := utf8ByteSize_of_lex ht
  rw [String.utf8ByteSize_append] at hl
  have hmoved := (lex_eq_ok_iff.1 ht).moveForward (k := s.toList.length) (by omega)
  rw [Nat.add_zero] at hmoved
  rw [lex_eq_ok_iff, String.toList_append, hsize]
  refine (lex_eq_ok_iff.1 hs).append ?_ hseam
  rw [Nat.zero_add]
  exact hmoved

/-! ## Blanks at the end -/

theorem noDigitNext_of_isBlank {blanks : List Char} (h : ∀ c ∈ blanks, isBlank c = true) :
    NoDigitNext blanks := by
  rintro c cs rfl
  exact isDigit_eq_false_of_isBlank (h c List.mem_cons_self)

theorem lexFrom_blanks {blanks : List Char} (h : ∀ c ∈ blanks, isBlank c = true) (offset : Nat)
    (tokens : List Token) : lexFrom offset blanks tokens = .ok tokens.reverse := by
  induction blanks generalizing offset with
  | nil => rw [lexFrom]
  | cons c cs ih =>
    obtain ⟨hc, hcs⟩ := List.forall_mem_cons.1 h
    rw [lexFrom, if_pos hc, ih hcs]

/-- **Blanks at the end of a source add nothing**: neither tokens nor a fault, nor do they take a
fault away. -/
theorem lex_append_blanks (s : String) {blanks : List Char} (h : ∀ c ∈ blanks, isBlank c = true) :
    lex (s ++ .ofList blanks) = lex s := by
  rw [lex, lex, String.toList_append, String.toList_ofList,
    lexFrom_append (apart_of_noDigitNext (noDigitNext_of_isBlank h))]
  cases lexFrom 0 s.toList [] with
  | error e => rfl
  | ok ts =>
    change lexFrom _ blanks ts.reverse = _
    rw [lexFrom_blanks h, List.reverse_reverse]

end Abacus.Token
