import Abacus.Operator
import Abacus.Token.Lexer

/-!
# What lexing does to a source

`Lexes offset chars tokens` says step by step how characters are cut into tokens: a blank is left
out, and every other character starts a token. The lexer succeeds exactly where there is such a
cut, so facts about all lexed sources are inductions over it.

Headlines:
* `lexFrom_eq_ok_iff`, `lex_eq_ok_iff`: the lexer gives the tokens of the cut and nothing else.
* `spells_of_lexeme?`, `lexeme?_of_spells`: a lexeme is spelled as its kind asks, and what is spelled
  so is a lexeme where it cannot go on.
* `exists_lex_eq_ok_iff`: a source is lexed exactly if it has no character outside the alphabet.
* `marks_ofRange`, `marks_of_lex`: what stands in the source at a range, and at the span of a token.
-/

namespace Abacus

/-- The bytes of `source` at the span are those of `text`. -/
def Span.Marks (s : Span) (source text : String) : Prop :=
  ∃ pre post, source = pre ++ text ++ post ∧ s.start.toNat = pre.utf8ByteSize ∧
    s.stop.toNat = pre.utf8ByteSize + text.utf8ByteSize

namespace Token

/-! ## Spelling -/

/-- How a token of each kind is spelled. -/
def Kind.Spells : Kind → List Char → Prop
  | number, cs => ∃ ds, ds ≠ [] ∧ (∀ d ∈ ds, d.isDigit = true) ∧ (cs = ds ∨ cs = '-' :: ds)
  | symbol, cs => ∃ op : Operator, cs = op.symbol.toList
  | opener b, cs => cs = [b.opener]
  | closer b, cs => cs = [b.closer]

theorem ne_nil_of_spells {kind : Kind} {cs : List Char} (h : kind.Spells cs) : cs ≠ [] := by
  rintro rfl
  cases kind with
  | number =>
    obtain ⟨ds, hne, -, he | he⟩ := h
    · exact hne he.symm
    · cases he
  | symbol =>
    obtain ⟨op, he⟩ := h
    cases op <;> cases he
  | opener b | closer b => cases h

theorem spells_of_ofChar? {c : Char} {kind : Kind} (h : Kind.ofChar? c = some kind) :
    kind.Spells [c] := by
  unfold Kind.ofChar? at h
  split at h <;> cases h
  · exact ⟨.add, rfl⟩
  · exact ⟨.sub, rfl⟩
  · exact ⟨.mul, rfl⟩
  · exact ⟨.div, rfl⟩
  all_goals rfl

theorem forall_isDigit_takeWhile (cs : List Char) :
    ∀ d ∈ cs.takeWhile Char.isDigit, d.isDigit = true := by
  intro d hd
  exact List.all_eq_true.1 List.all_takeWhile d hd

/-- **A lexeme is spelled as its kind asks.** -/
theorem spells_of_lexeme? {c : Char} {cs more : List Char} {kind : Kind}
    (h : lexeme? c cs = some (kind, more)) : kind.Spells (c :: more) := by
  have hds := forall_isDigit_takeWhile cs
  unfold lexeme? at h
  split at h
  · next hc =>
    cases h
    rcases hc with hc | ⟨rfl, hne⟩
    · refine ⟨c :: cs.takeWhile Char.isDigit, by simp, ?_, .inl rfl⟩
      intro d hd
      rcases List.mem_cons.1 hd with rfl | hd
      · exact hc
      · exact hds d hd
    · exact ⟨cs.takeWhile Char.isDigit, hne, hds, .inr rfl⟩
  · obtain ⟨k, hk, he⟩ := Option.map_eq_some_iff.1 h
    cases he
    exact spells_of_ofChar? hk

/-! ## Longest match -/

/-- No digit comes next. -/
def NoDigitNext (rest : List Char) : Prop := ∀ c cs, rest = c :: cs → c.isDigit = false

theorem noDigitNext_cons {c : Char} (hc : c.isDigit = false) (cs : List Char) :
    NoDigitNext (c :: cs) := by
  rintro d ds h
  cases h
  exact hc

theorem takeWhile_eq_nil_of_noDigitNext {rest : List Char} (h : NoDigitNext rest) :
    rest.takeWhile Char.isDigit = [] := by
  cases rest with
  | nil => rfl
  | cons c cs => exact List.takeWhile_cons_of_neg (by simp [h c cs rfl])

theorem takeWhile_isDigit_append {ds rest : List Char} (hds : ∀ d ∈ ds, d.isDigit = true)
    (hr : NoDigitNext rest) : (ds ++ rest).takeWhile Char.isDigit = ds := by
  rw [List.takeWhile_append_of_pos hds, takeWhile_eq_nil_of_noDigitNext hr, List.append_nil]

/-- A token of one character is taken if it is not the start of a number. -/
theorem lexeme?_of_ofChar? {c : Char} {kind : Kind} {rest : List Char}
    (h : Kind.ofChar? c = some kind) (hc : c.isDigit = false)
    (hr : c = '-' → NoDigitNext rest) : lexeme? c rest = some (kind, []) := by
  rw [lexeme?, if_neg, h, Option.map_some]
  rintro (hd | ⟨hm, hne⟩)
  · rw [hc] at hd
    cases hd
  · exact hne (takeWhile_eq_nil_of_noDigitNext (hr hm))

/-- Whether a digit directly behind a token would belong to it: this is so behind a number and behind
a minus sign. -/
def Kind.CanGoOn (kind : Kind) (chars : List Char) : Prop :=
  kind = .number ∨ kind = .symbol ∧ chars = ['-']

/-- **The longest token is taken**: what is spelled as a kind asks, if it could go on only with a digit
and none comes next. -/
theorem lexeme?_of_spells {kind : Kind} {c : Char} {more rest : List Char}
    (h : kind.Spells (c :: more)) (hr : kind.CanGoOn (c :: more) → NoDigitNext rest) :
    lexeme? c (more ++ rest) = some (kind, more) := by
  cases kind with
  | number =>
    have hnone := hr (.inl rfl)
    obtain ⟨ds, hne, hds, rfl | he⟩ := h
    · obtain ⟨hc, hmore⟩ := List.forall_mem_cons.1 hds
      rw [lexeme?, if_pos (.inl hc), takeWhile_isDigit_append hmore hnone]
    · obtain ⟨rfl, rfl⟩ := List.cons.inj he
      have htake := takeWhile_isDigit_append hds hnone
      rw [lexeme?, if_pos (.inr ⟨rfl, by rw [htake]; exact hne⟩), htake]
  | symbol =>
    obtain ⟨op, he⟩ := h
    cases op <;> obtain ⟨rfl, rfl⟩ := List.cons.inj he <;>
      refine lexeme?_of_ofChar? rfl rfl fun hm => hr (.inr ⟨rfl, ?_⟩)
    all_goals rw [hm]
  | opener b =>
    obtain ⟨rfl, rfl⟩ := List.cons.inj h
    cases b <;> exact lexeme?_of_ofChar? rfl rfl fun hm => absurd hm (by decide)
  | closer b =>
    obtain ⟨rfl, rfl⟩ := List.cons.inj h
    cases b <;> exact lexeme?_of_ofChar? rfl rfl fun hm => absurd hm (by decide)

/-- Nothing is spelled as two kinds ask. -/
theorem eq_of_spells {kind other : Kind} {cs : List Char} (h : kind.Spells cs)
    (h' : other.Spells cs) : kind = other := by
  obtain ⟨c, more, rfl⟩ := List.exists_cons_of_ne_nil (ne_nil_of_spells h)
  have hend : NoDigitNext [] := nofun
  have hfirst := lexeme?_of_spells h fun _ => hend
  rw [lexeme?_of_spells h' fun _ => hend] at hfirst
  exact (Prod.mk.inj (Option.some.inj hfirst)).1.symm

theorem noDigitNext_drop_takeWhile (cs : List Char) :
    NoDigitNext (cs.drop (cs.takeWhile Char.isDigit).length) := by
  induction cs with
  | nil => exact nofun
  | cons c cs ih =>
    by_cases hc : c.isDigit = true
    · rw [List.takeWhile_cons_of_pos hc]
      exact ih
    · rw [List.takeWhile_cons_of_neg hc]
      exact noDigitNext_cons (Bool.eq_false_iff.2 hc) cs

/-- No digit comes after a lexeme that could go on. -/
theorem noDigitNext_of_lexeme? {c : Char} {cs more : List Char} {kind : Kind}
    (h : lexeme? c cs = some (kind, more)) (hk : kind.CanGoOn (c :: more)) :
    NoDigitNext (cs.drop more.length) := by
  unfold lexeme? at h
  split at h
  · cases h
    exact noDigitNext_drop_takeWhile cs
  · next hc =>
    obtain ⟨k, hk', he⟩ := Option.map_eq_some_iff.1 h
    cases he
    rcases hk with rfl | ⟨-, hminus⟩
    · -- no character is a number by itself
      unfold Kind.ofChar? at hk'
      split at hk' <;> cases hk'
    · obtain ⟨rfl, -⟩ := List.cons.inj hminus
      have hnil : cs.takeWhile Char.isDigit = [] := Decidable.byContradiction fun hne => hc (.inr ⟨rfl, hne⟩)
      have := noDigitNext_drop_takeWhile cs
      rw [hnil] at this
      exact this

/-! ## The alphabet -/

/-- Blanks and the characters of tokens. -/
def isLexical (c : Char) : Bool := isBlank c || c.isDigit || (Kind.ofChar? c).isSome

/-- Tokens are spelled with digits and the characters that are tokens by themselves. -/
theorem isDigit_or_of_spells {kind : Kind} {cs : List Char} (h : kind.Spells cs) {c : Char}
    (hc : c ∈ cs) : c.isDigit = true ∨ (Kind.ofChar? c).isSome = true := by
  cases kind with
  | number =>
    obtain ⟨ds, -, hds, rfl | rfl⟩ := h
    · exact .inl (hds c hc)
    · rcases List.mem_cons.1 hc with rfl | hc
      · exact .inr rfl
      · exact .inl (hds c hc)
  | symbol =>
    obtain ⟨op, rfl⟩ := h
    cases op <;> obtain rfl := List.mem_singleton.1 hc <;> exact .inr rfl
  | opener b =>
    obtain rfl := h
    obtain rfl := List.mem_singleton.1 hc
    cases b <;> exact .inr rfl
  | closer b =>
    obtain rfl := h
    obtain rfl := List.mem_singleton.1 hc
    cases b <;> exact .inr rfl

theorem isLexical_of_spells {kind : Kind} {cs : List Char} (h : kind.Spells cs) {c : Char}
    (hc : c ∈ cs) : isLexical c = true := by
  rcases isDigit_or_of_spells h hc with hd | hk
  · simp [isLexical, hd]
  · simp [isLexical, hk]

/-- No blank is a digit. -/
theorem isDigit_eq_false_of_isBlank {c : Char} (h : isBlank c = true) : c.isDigit = false := by
  simp only [isBlank, Bool.or_eq_true, decide_eq_true_eq] at h
  rcases h with (((rfl | rfl) | rfl) | rfl) | rfl <;> rfl

/-- No blank is a token. -/
theorem ofChar?_of_isBlank {c : Char} (h : isBlank c = true) : Kind.ofChar? c = none := by
  simp only [isBlank, Bool.or_eq_true, decide_eq_true_eq] at h
  rcases h with (((rfl | rfl) | rfl) | rfl) | rfl <;> rfl

/-- No token has a blank in it. -/
theorem isBlank_eq_false_of_spells {kind : Kind} {cs : List Char} (h : kind.Spells cs) {c : Char}
    (hc : c ∈ cs) : isBlank c = false := by
  rw [Bool.eq_false_iff]
  intro hb
  rcases isDigit_or_of_spells h hc with hd | hk
  · rw [isDigit_eq_false_of_isBlank hb] at hd
    cases hd
  · rw [ofChar?_of_isBlank hb] at hk
    cases hk

theorem utf8Size_of_isDigit {c : Char} (h : c.isDigit = true) : c.utf8Size = 1 := by
  rw [Char.utf8Size_eq_one_iff]
  simp only [Char.isDigit, Bool.and_eq_true, decide_eq_true_eq] at h
  exact UInt32.le_trans h.2 (by decide)

/-- **Every character of the alphabet takes one byte.** -/
theorem utf8Size_of_isLexical {c : Char} (h : isLexical c = true) : c.utf8Size = 1 := by
  simp only [isLexical, isBlank, Bool.or_eq_true, decide_eq_true_eq] at h
  rcases h with (((((rfl | rfl) | rfl) | rfl) | rfl) | h) | h
  iterate 5 decide
  · exact utf8Size_of_isDigit h
  · unfold Kind.ofChar? at h
    split at h
    iterate 8 decide
    cases h

/-! ## Sizes of texts -/

theorem utf8ByteSize_ofList_cons (c : Char) (cs : List Char) :
    (String.ofList (c :: cs)).utf8ByteSize = c.utf8Size + (String.ofList cs).utf8ByteSize := by
  rw [← List.singleton_append, String.ofList_append, String.utf8ByteSize_append,
    ← String.singleton_eq_ofList, String.utf8ByteSize_singleton]

theorem utf8ByteSize_ofList {cs : List Char} (h : ∀ c ∈ cs, c.utf8Size = 1) :
    (String.ofList cs).utf8ByteSize = cs.length := by
  induction cs with
  | nil => rfl
  | cons c cs ih =>
    obtain ⟨hc, hcs⟩ := List.forall_mem_cons.1 h
    rw [utf8ByteSize_ofList_cons, hc, ih hcs, List.length_cons, Nat.add_comm]

/-- A text that is made of the alphabet has as many bytes as characters. -/
theorem utf8ByteSize_of_isLexical {s : String} (h : ∀ c ∈ s.toList, isLexical c = true) :
    s.utf8ByteSize = s.toList.length := by
  have hsize := utf8ByteSize_ofList fun c hc => utf8Size_of_isLexical (h c hc)
  rw [String.ofList_toList] at hsize
  exact hsize

/-- A text has at least as many bytes as characters. -/
theorem length_le_utf8ByteSize (s : String) : s.toList.length ≤ s.utf8ByteSize := by
  have h : ∀ cs : List Char, cs.length ≤ (String.ofList cs).utf8ByteSize := by
    intro cs
    induction cs with
    | nil => exact Nat.zero_le _
    | cons c cs ih =>
      have := c.utf8Size_pos
      rw [utf8ByteSize_ofList_cons, List.length_cons]
      omega
  have hs := h s.toList
  rw [String.ofList_toList] at hs
  exact hs

/-! ## The cut of a source into tokens -/

/-- The characters that start at byte `offset` are cut into `tokens`. -/
inductive Lexes : Nat → List Char → List Token → Prop
  | nil {offset : Nat} : Lexes offset [] []
  | blank {offset : Nat} {c : Char} {cs : List Char} {tokens : List Token}
      (hc : isBlank c = true) (h : Lexes (offset + 1) cs tokens) : Lexes offset (c :: cs) tokens
  | token {offset : Nat} {c : Char} {cs more : List Char} {kind : Kind} {tokens : List Token}
      (hc : isBlank c = false) (hm : lexeme? c cs = some (kind, more))
      (h : Lexes (offset + 1 + more.length) (cs.drop more.length) tokens) :
      Lexes offset (c :: cs) (ofChars kind offset (c :: more) :: tokens)

theorem lexes_of_lexFrom {offset : Nat} {chars : List Char} {acc tokens : List Token}
    (h : lexFrom offset chars acc = .ok tokens) :
    ∃ ts, Lexes offset chars ts ∧ tokens = acc.reverse ++ ts := by
  induction offset, chars, acc using lexFrom.induct with
  | case1 offset acc =>
    rw [lexFrom] at h
    cases h
    exact ⟨[], .nil, by simp⟩
  | case2 offset acc c cs hc ih =>
    rw [lexFrom, if_pos hc] at h
    obtain ⟨ts, hts, rfl⟩ := ih h
    exact ⟨ts, .blank hc hts, rfl⟩
  | case3 offset acc c cs hc kind more hm ih =>
    simp only [lexFrom, hm, if_neg hc] at h
    obtain ⟨ts, hts, rfl⟩ := ih h
    exact ⟨_, .token (Bool.eq_false_iff.2 hc) hm hts, by simp⟩
  | case4 offset acc c cs hc hm =>
    simp only [lexFrom, hm, if_neg hc] at h
    cases h

theorem Lexes.lexFrom_eq_ok {offset : Nat} {chars : List Char} {tokens : List Token}
    (h : Lexes offset chars tokens) : lexFrom offset chars [] = .ok tokens := by
  induction h with
  | nil => rw [lexFrom, List.reverse_nil]
  | blank hc _ ih => rw [lexFrom, if_pos hc, ih]
  | token hc hm _ ih =>
    simp only [lexFrom, hm, hc, Bool.false_eq_true, if_false]
    rw [lexFrom_eq, ih]
    rfl

/-- **The lexer follows the cut.** -/
theorem lexFrom_eq_ok_iff {offset : Nat} {chars : List Char} {tokens : List Token} :
    lexFrom offset chars [] = .ok tokens ↔ Lexes offset chars tokens := by
  refine ⟨fun h => ?_, Lexes.lexFrom_eq_ok⟩
  obtain ⟨ts, hts, rfl⟩ := lexes_of_lexFrom h
  exact hts

theorem lex_eq_ok_iff {source : String} {tokens : List Token} :
    lex source = .ok tokens ↔ Lexes 0 source.toList tokens :=
  lexFrom_eq_ok_iff

/-- **A spelled token may be put in front** of characters that it cannot go on with. -/
theorem Lexes.prepend {kind : Kind} {chars rest : List Char} {offset : Nat} {tokens : List Token}
    (hs : kind.Spells chars) (hr : kind.CanGoOn chars → NoDigitNext rest)
    (h : Lexes (offset + chars.length) rest tokens) :
    Lexes offset (chars ++ rest) (ofChars kind offset chars :: tokens) := by
  obtain ⟨c, more, rfl⟩ := List.exists_cons_of_ne_nil (ne_nil_of_spells hs)
  rw [List.cons_append]
  refine .token (isBlank_eq_false_of_spells hs List.mem_cons_self) (lexeme?_of_spells hs hr) ?_
  rw [List.drop_left, Nat.add_assoc, Nat.add_comm 1]
  exact h

/-! ## Tokens in their source -/

/-- A source that can be lexed has only characters of the alphabet. -/
theorem Lexes.isLexical {offset : Nat} {chars : List Char} {tokens : List Token}
    (h : Lexes offset chars tokens) : ∀ c ∈ chars, isLexical c = true := by
  induction h with
  | nil => intro c hc; cases hc
  | blank hc _ ih =>
    refine List.forall_mem_cons.2 ⟨?_, ih⟩
    simp [Token.isLexical, hc]
  | @token offset c cs more kind tokens hc hm _ ih =>
    rw [← append_drop_of_lexeme? hm, ← List.cons_append, List.forall_mem_append]
    exact ⟨fun d hd => isLexical_of_spells (spells_of_lexeme? hm) hd, ih⟩

/-- Characters of a source that can be lexed take one byte each. -/
theorem Lexes.utf8ByteSize_ofList {offset : Nat} {chars cs : List Char} {tokens : List Token}
    (h : Lexes offset chars tokens) (hcs : cs ⊆ chars) :
    (String.ofList cs).utf8ByteSize = cs.length :=
  Token.utf8ByteSize_ofList fun c hc => utf8Size_of_isLexical (h.isLexical c (hcs hc))

theorem utf8ByteSize_of_lex {source : String} {tokens : List Token}
    (h : lex source = .ok tokens) : source.utf8ByteSize = source.toList.length :=
  utf8ByteSize_of_isLexical (lex_eq_ok_iff.1 h).isLexical

/-- A character of the alphabet that is no blank starts a token, whatever follows. -/
theorem exists_lexeme?_of_isLexical {c : Char} (h : isLexical c = true) (hb : isBlank c = false)
    (cs : List Char) : ∃ kind more, lexeme? c cs = some (kind, more) := by
  simp only [Token.isLexical, hb, Bool.false_or, Bool.or_eq_true] at h
  unfold lexeme?
  split
  · exact ⟨_, _, rfl⟩
  · next hd =>
    rcases h with h | h
    · exact absurd (.inl h) hd
    · obtain ⟨kind, hk⟩ := Option.isSome_iff_exists.1 h
      exact ⟨kind, [], by rw [hk, Option.map_some]⟩

/-- **Characters of the alphabet can be cut into tokens**, in whatever order they stand. -/
theorem exists_lexes_of_isLexical {chars : List Char} (h : ∀ c ∈ chars, isLexical c = true)
    (offset : Nat) : ∃ tokens, Lexes offset chars tokens := by
  -- a token leaves fewer characters, but not always the tail of the list
  induction hn : chars.length using Nat.strongRecOn generalizing chars offset with
  | _ n ih =>
    subst hn
    cases chars with
    | nil => exact ⟨[], .nil⟩
    | cons c cs =>
      obtain ⟨hc, hcs⟩ := List.forall_mem_cons.1 h
      by_cases hb : isBlank c = true
      · obtain ⟨tokens, ht⟩ := ih cs.length (Nat.lt_succ_self _) hcs (offset + 1) rfl
        exact ⟨tokens, .blank hb ht⟩
      · have hb := Bool.eq_false_iff.2 hb
        obtain ⟨kind, more, hm⟩ := exists_lexeme?_of_isLexical hc hb cs
        have hlt : (cs.drop more.length).length < (c :: cs).length := by
          rw [List.length_drop, List.length_cons]
          omega
        have hrest : ∀ d ∈ cs.drop more.length, isLexical d = true :=
          fun d hd => hcs d (List.mem_of_mem_drop hd)
        obtain ⟨tokens, ht⟩ := ih _ hlt hrest (offset + 1 + more.length) rfl
        exact ⟨_, .token hb hm ht⟩

/-- A source is lexed exactly if all its characters belong to the alphabet. -/
theorem exists_lex_eq_ok_iff {source : String} :
    (∃ tokens, lex source = .ok tokens) ↔ ∀ c ∈ source.toList, isLexical c = true := by
  constructor
  · rintro ⟨tokens, h⟩
    exact (lex_eq_ok_iff.1 h).isLexical
  · intro h
    obtain ⟨tokens, ht⟩ := exists_lexes_of_isLexical h 0
    exact ⟨tokens, lex_eq_ok_iff.2 ht⟩

/-- The lexer has one kind of fault. -/
theorem exists_unexpectedChar_of_lex {source : String} {e : ParseError}
    (h : lex source = .error e) : ∃ found span, e = .unexpectedChar found span := by
  have hfrom : ∀ offset chars acc, lexFrom offset chars acc = .error e →
      ∃ found span, e = .unexpectedChar found span := by
    intro offset chars acc
    fun_induction lexFrom offset chars acc with
    | case1 => intro h; cases h
    | case2 offset acc c cs hc ih => exact ih
    | case3 offset acc c cs hc kind more hm ih => exact ih
    | case4 offset acc c cs hc hm =>
      intro h
      cases h
      exact ⟨c, _, rfl⟩
  exact hfrom 0 source.toList [] h

/-- Every token is made of characters of the source, at the place where they stand, and could not have
been longer. -/
theorem Lexes.exists_eq_ofChars {offset : Nat} {chars : List Char} {tokens : List Token}
    (h : Lexes offset chars tokens) {t : Token} (ht : t ∈ tokens) :
    ∃ pre mid post, chars = pre ++ mid ++ post ∧ t = ofChars t.kind (offset + pre.length) mid ∧
      t.kind.Spells mid ∧ (t.kind.CanGoOn mid → NoDigitNext post) := by
  induction h with
  | nil => cases ht
  | @blank offset c cs tokens hc _ ih =>
    obtain ⟨pre, mid, post, rfl, he, hs⟩ := ih ht
    refine ⟨c :: pre, mid, post, rfl, ?_, hs⟩
    rw [List.length_cons, Nat.add_comm pre.length, ← Nat.add_assoc]
    exact he
  | @token offset c cs more kind tokens hc hm _ ih =>
    have hcs := append_drop_of_lexeme? hm
    rcases List.mem_cons.1 ht with rfl | ht
    · exact ⟨[], c :: more, cs.drop more.length, by simp [hcs], rfl, spells_of_lexeme? hm,
        noDigitNext_of_lexeme? hm⟩
    · obtain ⟨pre, mid, post, hd, he, hs⟩ := ih ht
      refine ⟨c :: more ++ pre, mid, post, ?_, ?_, hs⟩
      · rw [← hcs, hd]
        simp
      · rw [he]
        congr 1
        simp only [List.length_append, List.length_cons]
        omega

/-- Some characters of a lexed source are found at the range of their places. -/
theorem marks_ofRange {source : String} {tokens : List Token} (h : lex source = .ok tokens)
    (hl : source.utf8ByteSize ≤ Span.limit) {pre mid post : List Char}
    (he : source.toList = pre ++ mid ++ post) :
    (Span.ofRange pre.length (pre.length + mid.length)).Marks source (.ofList mid) := by
  have hsize := utf8ByteSize_of_lex h
  rw [he, List.length_append, List.length_append] at hsize
  have hlex := lex_eq_ok_iff.1 h
  have hpre := hlex.utf8ByteSize_ofList fun c (hc : c ∈ pre) => by simp [he, hc]
  have hmid := hlex.utf8ByteSize_ofList fun c (hc : c ∈ mid) => by simp [he, hc]
  have hstart : pre.length ≤ Span.limit := by omega
  have hstop : pre.length + mid.length ≤ Span.limit := by omega
  obtain ⟨hstart, hstop⟩ := Span.ofRange_eq hstart hstop
  refine ⟨.ofList pre, .ofList post, ?_, by omega, by omega⟩
  rw [← String.toList_inj, he]
  simp

/-- **The span of a token holds exactly its text**, and the text is spelled as the kind asks. -/
theorem marks_of_lex {source : String} {tokens : List Token} (h : lex source = .ok tokens)
    (hl : source.utf8ByteSize ≤ Span.limit) {t : Token} (ht : t ∈ tokens) :
    t.span.Marks source t.text ∧ t.kind.Spells t.text.toList := by
  obtain ⟨pre, mid, post, hsource, he, hs, -⟩ := (lex_eq_ok_iff.1 h).exists_eq_ofChars ht
  have hmarks := marks_ofRange h hl hsource
  rw [Nat.zero_add] at he
  have htext : t.text.toList = mid := by
    have hsize := utf8ByteSize_of_lex h
    rw [hsource, List.length_append, List.length_append] at hsize
    rw [he]
    exact toList_text_ofChars (by omega)
  have hspan : t.span = .ofRange pre.length (pre.length + mid.length) := by
    rw [he]
    rfl
  rw [hspan, ← String.ofList_toList (s := t.text), htext, String.toList_ofList]
  exact ⟨hmarks, hs⟩

end Token

end Abacus
