import Abacus.Json.Encode
import Abacus.Proofs.Number.Decimal
import Mathlib.Data.List.DropRight

/-!
# JSON texts and their documents

How far a text determines what it is read as, piece by piece and whatever follows: characters are read
back from their escapes, integers from their decimal notation, and documents are built from their
tokens. So a text is parsed by finding its tokens.

Headlines:
* `readString_quoted`, `number?_repr`: strings and integers are read back from their texts.
* `Spells.append`, `spells_quote`, `spells_number`: the tokens of a text are those of its parts.
* `builds`: a document is built from its tokens, at whatever depth.
* `parse?_of_spells`: a text with the tokens of a document is parsed as it.
-/

namespace Abacus.Json

/-! ## Strings -/

/-- Control characters are escaped by their two last hexadecimal digits. -/
theorem hexUnit?_hexDigit {n : Nat} (h : n < 0x20) :
    hexUnit? '0' '0' (hexDigit (n / 16)) (hexDigit (n % 16)) = some n := by
  have hall : ∀ n < 0x20, hexUnit? '0' '0' (hexDigit (n / 16)) (hexDigit (n % 16)) = some n := by
    decide
  exact hall n h

/-- A string that has been read up to some characters, last one first. -/
def Spelled.of (before : List Char) : Spelled := ⟨none, some before⟩

theorem Spelled.addChar_of (before : List Char) (c : Char) :
    (Spelled.of before).addChar c = .of (c :: before) := rfl

theorem Spelled.addUnit_of (before : List Char) {c : Char} (h : c.toNat < 0x20) :
    (Spelled.of before).addUnit c.toNat = .of (c :: before) := by
  rw [addUnit, if_neg (by omega), if_neg (by omega), Char.ofNat_toNat, addChar_of]

/-- **A character is read back from its escape.** -/
theorem readString_escape (c : Char) (rest before : List Char) :
    readString (escape c ++ rest) (.of before) = readString rest (.of (c :: before)) := by
  unfold escape
  split
  iterate 7 rfl
  next hquote hbackslash _ _ _ _ _ =>
  split
  · next hc =>
    simp only [List.cons_append, List.nil_append]
    rw [readString]
    simp only [hexUnit?_hexDigit hc, Spelled.addUnit_of before hc]
  · next hc =>
    rw [List.singleton_append, readString, if_neg hc, Spelled.addChar_of]
    · exact hquote
    · exact fun _ _ _ _ _ he _ => hbackslash he
    · exact fun _ _ he _ => hbackslash he

/-- **A string is read back from its text**, whatever follows. -/
theorem readString_quoted (text rest before : List Char) :
    readString (text.flatMap escape ++ '"' :: rest) (.of before) =
      some (some (.ofList (before.reverse ++ text)), rest) := by
  induction text generalizing before with
  | nil =>
    rw [List.flatMap_nil, List.nil_append, readString, List.append_nil]
    rfl
  | cons c text ih =>
    rw [List.flatMap_cons, List.append_assoc, readString_escape, ih, List.reverse_cons,
      List.append_assoc, List.singleton_append]

/-! ## Numbers -/

theorem isNumberChar_of_isDigit {c : Char} (h : c.isDigit = true) : isNumberChar c = true := by
  simp [isNumberChar, h]

/-- Only zero starts with a zero. -/
theorem head?_toDigits_ne {n : Nat} (h : 0 < n) : (Nat.toDigits 10 n).head? ≠ some '0' := by
  induction n using Nat.strongRecOn with
  | _ n ih =>
    by_cases hn : n < 10
    · have hall : ∀ n < 10, 0 < n → n.digitChar ≠ '0' := by decide
      rw [Nat.toDigits_of_lt_base hn]
      exact fun he => hall n hn h (Option.some.inj he)
    · have hle : 10 ≤ n := by omega
      rw [Nat.toDigits_of_base_le (by decide) hle, List.head?_append_of_ne_nil _ Nat.toDigits_ne_nil]
      exact ih (n / 10) (by omega) (by omega)

theorem unsigned?_toDigits (n : Nat) : unsigned? (Nat.toDigits 10 n) = some (some n) := by
  have hdigits : ∀ c ∈ Nat.toDigits 10 n, c.isDigit = true :=
    fun _ => Number.isDigit_of_mem_toDigits
  have hdrop : (Nat.toDigits 10 n).dropWhile Char.isDigit = [] :=
    List.dropWhile_eq_nil_iff.2 hdigits
  have htake : (Nat.toDigits 10 n).takeWhile Char.isDigit = Nat.toDigits 10 n :=
    List.takeWhile_eq_self_iff.2 hdigits
  have hzeros : ((Nat.toDigits 10 n).head? == some '0' && (Nat.toDigits 10 n).length != 1) = false := by
    by_cases hn : 0 < n
    · rw [beq_eq_false_iff_ne.2 (head?_toDigits_ne hn), Bool.false_and]
    · obtain rfl : n = 0 := by omega
      rfl
  have hempty : (Nat.toDigits 10 n).isEmpty = false :=
    Bool.eq_false_iff.2 fun he => Nat.toDigits_ne_nil (List.isEmpty_iff.1 he)
  unfold unsigned?
  dsimp only
  rw [htake, hdrop, hempty, hzeros, Nat.ofDigitChars_ten_toDigits]
  rfl

/-- **An integer is read back from its decimal notation.** -/
theorem number?_repr (n : Int) : number? n.repr.toList = some (some n) := by
  rw [Int.repr_eq_if]
  split
  · next hn =>
    rw [Nat.toList_repr]
    have hminus : ∀ cs, Nat.toDigits 10 n.toNat ≠ '-' :: cs := fun cs he =>
      absurd (Number.isDigit_of_mem_toDigits (he ▸ List.mem_cons_self)) (by decide)
    rw [number?, unsigned?_toDigits]
    · simp only [Option.map_some, Int.ofNat_eq_natCast, Int.toNat_of_nonneg hn]
    · exact hminus
  · next hn =>
    have hne : (-n).toNat ≠ 0 := by omega
    rw [String.toList_append, Nat.toList_repr]
    change number? ('-' :: Nat.toDigits 10 (-n).toNat) = _
    rw [number?, unsigned?_toDigits]
    simp only [Option.map_some, Option.bind_some, if_neg hne, Option.some_inj]
    omega

/-- Decimal notation consists of characters that occur in numbers. -/
theorem isNumberChar_of_mem_repr {n : Int} {c : Char} (h : c ∈ n.repr.toList) :
    isNumberChar c = true := by
  rw [Int.repr_eq_if] at h
  split at h
  · rw [Nat.toList_repr] at h
    exact isNumberChar_of_isDigit (Number.isDigit_of_mem_toDigits h)
  · rw [String.toList_append, Nat.toList_repr, List.mem_append] at h
    rcases h with h | h
    · obtain rfl := List.mem_singleton.1 h
      rfl
    · exact isNumberChar_of_isDigit (Number.isDigit_of_mem_toDigits h)

/-! ## Texts and their tokens -/

/-- A text is read as some tokens, whatever follows. -/
def Spells (chars : List Char) (tokens : List Token) : Prop :=
  ∀ rest before, lexFrom (chars ++ rest) before = lexFrom rest (tokens.reverse ++ before)

theorem spells_nil : Spells [] [] := fun _ _ => rfl

theorem Spells.append {chars more : List Char} {tokens later : List Token}
    (h : Spells chars tokens) (h' : Spells more later) : Spells (chars ++ more) (tokens ++ later) := by
  intro rest before
  rw [List.append_assoc, h, h', List.reverse_append, List.append_assoc]

/-- Whether a character starts neither a word nor a string. -/
def IsPlain (c : Char) : Prop := c ≠ 'n' ∧ c ≠ 't' ∧ c ≠ 'f' ∧ c ≠ '"'

/-- How a plain character is read. -/
theorem lexFrom_cons {c : Char} (hc : IsPlain c) (cs : List Char) (before : List Token) :
    lexFrom (c :: cs) before =
      if isSpace c then lexFrom cs before
      else
        match Token.ofChar? c with
        | some t => lexFrom cs (t :: before)
        | none =>
          match number? (c :: cs.takeWhile isNumberChar) with
          | some n =>
            lexFrom (cs.drop (cs.takeWhile isNumberChar).length) (.scalar (.number n) :: before)
          | none => none := by
  obtain ⟨hn, ht, hf, hq⟩ := hc
  exact lexFrom.eq_6 before c cs (fun _ h _ => hn h) (fun _ h _ => ht h) (fun _ h _ => hf h) hq

/-- **A token of one character is read**, whatever follows. -/
theorem spells_ofChar {c : Char} {t : Token} (h : Token.ofChar? c = some t) : Spells [c] [t] := by
  intro rest before
  have hc : IsPlain c ∧ isSpace c = false := by
    unfold Token.ofChar? at h
    unfold IsPlain
    split at h <;> cases h <;> decide
  rw [List.singleton_append, lexFrom_cons hc.1, if_neg (by simp [hc.2])]
  simp only [h]
  rfl

/-- **A quoted text is a string.** -/
theorem spells_quote (text : String) :
    Spells (quote text).toList [.scalar (.string (some text))] := by
  intro rest before
  have hquote : (quote text).toList ++ rest =
      '"' :: (text.toList.flatMap escape ++ '"' :: rest) := by
    rw [quote, String.toList_append, String.toList_append, String.toList_ofList]
    simp
  have hread : readString (text.toList.flatMap escape ++ '"' :: rest) .empty =
      some (some text, rest) := by
    have := readString_quoted text.toList rest []
    rwa [List.reverse_nil, List.nil_append, String.ofList_toList] at this
  rw [hquote, lexFrom]
  split
  · next heq =>
    rw [hread] at heq
    cases heq
    rfl
  · next heq =>
    rw [hread] at heq
    cases heq

/-- A character of a number starts nothing else. -/
theorem of_isNumberChar {c : Char} (h : isNumberChar c = true) :
    IsPlain c ∧ isSpace c = false ∧ Token.ofChar? c = none := by
  have hne : ∀ {d : Char}, isNumberChar d = false → c ≠ d := by
    rintro d hd rfl
    rw [hd] at h
    cases h
  refine ⟨⟨hne rfl, hne rfl, hne rfl, hne rfl⟩, ?_, ?_⟩
  · simp only [isSpace, Bool.or_eq_false_iff, beq_eq_false_iff_ne]
    exact ⟨⟨⟨hne rfl, hne rfl⟩, hne rfl⟩, hne rfl⟩
  · unfold Token.ofChar?
    split
    iterate 6 cases h
    rfl

/-- **A number is read up to the next character that is not one of it.** -/
theorem spells_number (n : Int) {c : Char} {t : Token} (h : Token.ofChar? c = some t) :
    Spells (n.repr.toList ++ [c]) [.scalar (.number (some n)), t] := by
  intro rest before
  have hnumber := number?_repr n
  have hchars : ∀ d ∈ n.repr.toList, isNumberChar d = true := fun _ => isNumberChar_of_mem_repr
  have hc : isNumberChar c = false := by
    rw [Bool.eq_false_iff]
    intro hc
    rw [(of_isNumberChar hc).2.2] at h
    cases h
  cases hrepr : n.repr.toList with
  | nil => rw [hrepr] at hnumber; cases hnumber
  | cons d ds =>
    rw [hrepr] at hnumber hchars
    obtain ⟨hd, hds⟩ := List.forall_mem_cons.1 hchars
    obtain ⟨hword, hspace, hnone⟩ := of_isNumberChar hd
    have htake : (ds ++ c :: rest).takeWhile isNumberChar = ds := by
      rw [List.takeWhile_append_of_pos hds, List.takeWhile_cons_of_neg (by simp [hc]),
        List.append_nil]
    rw [List.append_assoc, List.singleton_append, List.cons_append, lexFrom_cons hword,
      if_neg (by simp [hspace]), htake]
    simp only [hnone, hnumber, List.drop_left]
    exact spells_ofChar h rest _

/-! ## Documents and their tokens -/

theorem sizeOf_lt_of_mem_items {items : List Json} {d : Json} (h : d ∈ items) :
    sizeOf d < sizeOf (array items) := by
  have := List.sizeOf_lt_of_mem h
  simp only [array.sizeOf_spec]
  omega

theorem sizeOf_lt_of_mem_members {members : List (Option String × Json)}
    {m : Option String × Json} (h : m ∈ members) : sizeOf m.2 < sizeOf (object members) := by
  have := List.sizeOf_lt_of_mem h
  cases m
  simp only [Prod.mk.sizeOf_spec, object.sizeOf_spec] at *
  omega

/-- Induction on documents, where the items of an array and the values of an object are known to
satisfy the claim. -/
@[elab_as_elim, induction_eliminator]
theorem induct {motive : Json → Prop} (null : motive null) (bool : ∀ value, motive (bool value))
    (number : ∀ n, motive (number n)) (string : ∀ text, motive (string text))
    (array : ∀ items, (∀ d ∈ items, motive d) → motive (array items))
    (object : ∀ members, (∀ m ∈ members, motive m.2) → motive (object members)) (d : Json) :
    motive d :=
  match d with
  | .null => null
  | .bool value => bool value
  | .number n => number n
  | .string text => string text
  | .array items => array items fun d _ => induct null bool number string array object d
  | .object members => object members fun m _ => induct null bool number string array object m.2
termination_by sizeOf d
decreasing_by
  · exact sizeOf_lt_of_mem_items ‹_›
  · exact sizeOf_lt_of_mem_members ‹_›

/-- The tokens of a document. -/
def tokens : Json → List Token
  | array items => .openArray :: ([Token.comma].intercalate (items.map tokens) ++ [.closeArray])
  | object members =>
    .openObject :: ([Token.comma].intercalate (members.map fun m =>
      .scalar (.string m.1) :: .colon :: tokens m.2) ++ [.closeObject])
  | d => [.scalar d]
termination_by d => sizeOf d
decreasing_by
  · exact sizeOf_lt_of_mem_items ‹_›
  · exact sizeOf_lt_of_mem_members ‹_›

/-- The tokens of a member of an object. -/
def memberTokens (m : Option String × Json) : List Token :=
  .scalar (.string m.1) :: .colon :: tokens m.2

theorem tokens_array (items : List Json) :
    (array items).tokens =
      .openArray :: ([Token.comma].intercalate (items.map tokens) ++ [.closeArray]) := by
  rw [tokens]

theorem tokens_object (members : List (Option String × Json)) :
    (object members).tokens =
      .openObject :: ([Token.comma].intercalate (members.map memberTokens) ++ [.closeObject]) := by
  rw [tokens]
  rfl

theorem tokens_scalar {d : Json} (ha : ∀ items, d ≠ array items)
    (ho : ∀ members, d ≠ object members) : d.tokens = [.scalar d] := by
  rw [tokens]
  · exact ha
  · exact ho

/-- No document starts with the end of an array. -/
theorem exists_tokens_eq_cons (d : Json) : ∃ t ts, d.tokens = t :: ts ∧ t ≠ .closeArray := by
  cases d with
  | array items => exact ⟨_, _, tokens_array items, nofun⟩
  | object members => exact ⟨_, _, tokens_object members, nofun⟩
  | null | bool | number | string =>
    exact ⟨_, _, tokens_scalar nofun nofun, nofun⟩

theorem intercalate_cons {α : Type} (separator : α) (part : List α) (parts : List (List α)) :
    [separator].intercalate (part :: parts) = part ++ parts.flatMap (separator :: ·) := by
  induction parts generalizing part with
  | nil => rw [List.intercalate_singleton, List.flatMap_nil, List.append_nil]
  | cons p ps ih =>
    rw [List.intercalate_cons_cons, ih, List.flatMap_cons, List.append_assoc]
    rfl

/-- The tokens of a document build it, wherever it may stand. -/
def Builds (d : Json) : Prop :=
  ∀ rest os, build (d.tokens ++ rest) none os = build rest (some d) os

theorem builds_scalar {d : Json} (ha : ∀ items, d ≠ array items)
    (ho : ∀ members, d ≠ object members) : Builds d := by
  intro rest os
  rw [tokens_scalar ha ho]
  rfl

/-- The rest of an array, from an item on. -/
theorem build_items {d : Json} {items : List Json} (h : ∀ e ∈ d :: items, Builds e)
    (done : List Json) (rest : List Token) (os : List Opening) :
    build (d.tokens ++ ((items.map tokens).flatMap (.comma :: ·) ++ .closeArray :: rest)) none
        (.array done :: os) =
      build rest (some (.array (done.reverse ++ d :: items))) os := by
  induction items generalizing d done with
  | nil =>
    rw [h d List.mem_cons_self, List.map_nil, List.flatMap_nil, List.nil_append, build,
      List.reverse_cons]
  | cons e items ih =>
    obtain ⟨hd, hitems⟩ := List.forall_mem_cons.1 h
    rw [hd, List.map_cons, List.flatMap_cons, List.append_assoc, List.cons_append, build,
      ih hitems, List.reverse_cons, List.append_assoc, List.singleton_append]

/-- The rest of an object, from a value on. -/
theorem build_members {m : Option String × Json} {members : List (Option String × Json)}
    (h : ∀ m' ∈ m :: members, Builds m'.2) (done : List (Option String × Json)) (rest : List Token)
    (os : List Opening) :
    build (m.2.tokens ++ ((members.map memberTokens).flatMap (.comma :: ·) ++ .closeObject :: rest))
        none (.object done m.1 :: os) =
      build rest (some (.object (done.reverse ++ m :: members))) os := by
  induction members generalizing m done with
  | nil =>
    rw [h m List.mem_cons_self, List.map_nil, List.flatMap_nil, List.nil_append, build,
      List.reverse_cons]
  | cons n members ih =>
    obtain ⟨hm, hmembers⟩ := List.forall_mem_cons.1 h
    rw [hm, List.map_cons, List.flatMap_cons, List.append_assoc, List.cons_append, memberTokens,
      List.cons_append, List.cons_append, build, ih hmembers, List.reverse_cons, List.append_assoc,
      List.singleton_append]

/-- **A document is built from its tokens**, wherever it may stand. -/
theorem builds (d : Json) : Builds d := by
  induction d with
  | null | bool | number | string => exact builds_scalar nofun nofun
  | array items ih =>
    intro rest os
    rw [tokens_array]
    cases items with
    | nil => rfl
    | cons d items =>
      rw [List.map_cons, intercalate_cons, List.cons_append, List.append_assoc, List.append_assoc,
        List.singleton_append, build]
      · exact build_items ih [] rest os
      · obtain ⟨t, ts, hts, ht⟩ := exists_tokens_eq_cons d
        rw [hts]
        exact fun _ he => ht (List.cons.inj he).1
  | object members ih =>
    intro rest os
    rw [tokens_object]
    cases members with
    | nil => rfl
    | cons m members =>
      rw [List.map_cons, intercalate_cons, memberTokens, List.cons_append, List.cons_append,
        List.cons_append, List.cons_append, List.append_assoc, List.append_assoc,
        List.singleton_append, List.cons_append, build]
      exact build_members ih [] rest os

/-- **A text that is read as the tokens of a document is parsed as it.** -/
theorem parse?_of_spells {text : String} {d : Json} (h : Spells text.toList d.tokens) :
    parse? text = some d := by
  have hlex := h [] []
  have hbuild := builds d [] []
  rw [List.append_nil, List.append_nil] at hlex
  rw [List.append_nil] at hbuild
  rw [parse?, hlex, lexFrom, List.reverse_reverse, Option.bind_some, hbuild, build]

end Abacus.Json
