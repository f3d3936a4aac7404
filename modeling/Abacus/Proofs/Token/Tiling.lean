import Abacus.Proofs.Text.Pieces
import Abacus.Proofs.Token.Segments

/-!
# Tokens as a tiling of their source

What the tokens of a source are, said without a lexer and byte by byte. They stand one after the
other, each holds what the source has at its span, a byte that belongs to none of them is a blank,
and none of them could go on: no digit stands directly behind a number or behind a minus sign. A
source has at most one such tiling, and the lexer finds it.

`Tiles` speaks of bytes, as spans do, and `Cut` of characters, as `Lexes` does. They say the same, as
a byte below 128 is a character of its own.

Headlines:
* `Lexes.cut`, `Cut.lexes`: the characters are cut into tokens exactly as `Cut` asks.
* `Cut.tiles`, `Tiles.cut`: from characters to bytes and back.
* `lex_eq_ok_iff_tiles`: a source is lexed into the only list of tokens that tiles it.
-/

namespace Abacus

/-- Byte `i` belongs to the span. -/
def Span.Holds (s : Span) (i : Nat) : Prop := s.start.toNat ≤ i ∧ i < s.stop.toNat

/-! ## Characters among bytes -/

namespace Text

/-- The first byte of a character is its code if this is below 128, and otherwise not below 128. -/
theorem head?_utf8EncodeChar (c : Char) :
    ∃ b, (String.utf8EncodeChar c).head? = some b ∧
      (Char.ofUInt8 b = c ∨ 128 ≤ b.toNat ∧ 128 ≤ c.toNat) := by
  have hc : c.toNat = c.val.toNat := rfl
  have hmarked : ∀ n, 128 ≤ n → n < 256 → 128 ≤ (UInt8.ofNat n).toNat := by
    intro n hn hlt
    rw [UInt8.toNat_ofNat_of_lt' hlt]
    exact hn
  unfold String.utf8EncodeChar
  dsimp only
  split
  · next h =>
    have hlt : c.val.toNat < UInt8.size := Nat.lt_of_le_of_lt h (by decide)
    refine ⟨_, rfl, .inl (Char.toNat_inj.1 ?_)⟩
    change (UInt8.ofNat c.val.toNat).toUInt32.toNat = _
    rw [UInt8.toNat_toUInt32, UInt8.toNat_ofNat_of_lt' hlt, hc]
  · split
    · exact ⟨_, rfl, .inr ⟨hmarked _ (by omega) (by omega), by omega⟩⟩
    · split
      · exact ⟨_, rfl, .inr ⟨hmarked _ (by omega) (by omega), by omega⟩⟩
      · exact ⟨_, rfl, .inr ⟨hmarked _ (by omega) (by omega), by omega⟩⟩

/-- **Behind a text stands the first byte of the next character**, which has a property of characters
below 128 exactly if the character has it. -/
theorem exists_getElem?_bytes {p : Char → Bool} (hp : ∀ c, p c = true → c.toNat < 128)
    (pre : List Char) (c : Char) (post : List Char) :
    ∃ b, (bytes (.ofList (pre ++ c :: post)))[(String.ofList pre).utf8ByteSize]? = some b ∧
      p (.ofUInt8 b) = p c := by
  obtain ⟨b, hb, hc⟩ := head?_utf8EncodeChar c
  refine ⟨b, ?_, ?_⟩
  · rw [← length_bytes, bytes_ofList, bytes_ofList, List.flatMap_append,
      List.getElem?_append_right (Nat.le_refl _), Nat.sub_self, List.flatMap_cons,
      ← List.head?_eq_getElem?, List.head?_append_of_ne_nil _ String.utf8EncodeChar_ne_nil, hb]
  · rcases hc with rfl | ⟨hb, hc⟩
    · rfl
    · have hnot : ∀ d : Char, 128 ≤ d.toNat → p d = false := fun d hd =>
        Bool.eq_false_iff.2 fun h => absurd (hp d h) (by omega)
      have hcode : (Char.ofUInt8 b).toNat = b.toNat := UInt8.toNat_toUInt32 b
      rw [hnot c hc, hnot _ (by omega)]

end Text

namespace Token

open Text (bytes)

theorem toNat_lt_of_isBlank {c : Char} (h : isBlank c = true) : c.toNat < 128 := by
  simp only [isBlank, Bool.or_eq_true, decide_eq_true_eq] at h
  rcases h with (((rfl | rfl) | rfl) | rfl) | rfl <;> decide

theorem toNat_lt_of_isDigit {c : Char} (h : c.isDigit = true) : c.toNat < 128 := by
  simp only [Char.isDigit, Bool.and_eq_true, decide_eq_true_eq] at h
  exact Nat.lt_of_le_of_lt (UInt32.le_iff_toNat_le.1 h.2) (by decide)

/-! ## Tilings -/

/-- **What the tokens of a source are**, in terms of its bytes. -/
structure Tiles (source : String) (tokens : List Token) : Prop where
  /-- No token is empty, and they stand one after the other. -/
  arranged : Arranged tokens
  /-- They end within the source. -/
  within : ∀ t ∈ tokens, t.span.stop.toNat ≤ source.utf8ByteSize
  /-- The text of a token is what the source has at its span, and is spelled as its kind asks. -/
  marks : ∀ t ∈ tokens, t.span.Marks source t.text
  spells : ∀ t ∈ tokens, t.kind.Spells t.text.toList
  /-- Bytes that belong to no token are blanks. -/
  blank : ∀ i b, (bytes source)[i]? = some b → (∀ t ∈ tokens, ¬t.span.Holds i) →
    isBlank (.ofUInt8 b) = true
  /-- No digit stands directly behind a token that could go on with it. -/
  longest : ∀ t ∈ tokens, t.kind.CanGoOn t.text.toList →
    ∀ b, (bytes source)[t.span.stop.toNat]? = some b → (Char.ofUInt8 b).isDigit = false

/-- A token that stands among characters, the first of which is at byte `offset`. -/
def StandsIn (offset : Nat) (chars : List Char) (t : Token) : Prop :=
  ∃ pre post, chars = pre ++ t.text.toList ++ post ∧
    t.span.start.toNat = offset + (String.ofList pre).utf8ByteSize ∧
    t.span.stop.toNat = t.span.start.toNat + t.text.utf8ByteSize ∧
    t.kind.Spells t.text.toList ∧ (t.kind.CanGoOn t.text.toList → NoDigitNext post)

/-- A tiling in terms of characters, the first of which is at byte `offset`. -/
structure Cut (offset : Nat) (chars : List Char) (tokens : List Token) : Prop where
  arranged : Arranged tokens
  stands : ∀ t ∈ tokens, t.StandsIn offset chars
  blank : ∀ pre c post, chars = pre ++ c :: post →
    (∀ t ∈ tokens, ¬t.span.Holds (offset + (String.ofList pre).utf8ByteSize)) → isBlank c = true

/-! ## From the lexer to a tiling -/

theorem utf8ByteSize_ofList_of_spells {kind : Kind} {cs : List Char} (h : kind.Spells cs) :
    (String.ofList cs).utf8ByteSize = cs.length :=
  utf8ByteSize_ofList fun _ hc => utf8Size_of_isLexical (isLexical_of_spells h hc)

theorem holds_ofChars_iff {kind : Kind} {offset : Nat} {chars : List Char}
    (hl : offset + chars.length ≤ Span.limit) {i : Nat} :
    (ofChars kind offset chars).span.Holds i ↔ offset ≤ i ∧ i < offset + chars.length := by
  have hle : offset ≤ Span.limit := by omega
  obtain ⟨hstart, hstop⟩ := Span.ofRange_eq hle hl
  rw [Span.Holds, ofChars, hstart, hstop]

/-- A character outside of all tokens is a blank. -/
theorem Lexes.isBlank_of_gap {offset : Nat} {chars : List Char} {tokens : List Token}
    (h : Lexes offset chars tokens) (hl : offset + chars.length ≤ Span.limit) {pre post : List Char}
    {c : Char} (hc : chars = pre ++ c :: post)
    (hgap : ∀ t ∈ tokens, ¬t.span.Holds (offset + (String.ofList pre).utf8ByteSize)) :
    isBlank c = true := by
  induction h generalizing pre with
  | nil => simp at hc
  | @blank offset d cs tokens hd _ ih =>
    rw [List.length_cons] at hl
    cases pre with
    | nil =>
      obtain ⟨rfl, -⟩ := List.cons.inj hc
      exact hd
    | cons e pre =>
      obtain ⟨rfl, hcs⟩ := List.cons.inj hc
      have hsize : d.utf8Size = 1 := utf8Size_of_isLexical (by simp [Token.isLexical, hd])
      rw [utf8ByteSize_ofList_cons, hsize, ← Nat.add_assoc] at hgap
      exact ih (by omega) hcs hgap
  | @token offset d cs more kind tokens hd hm _ ih =>
    have hsize := utf8ByteSize_ofList_of_spells (spells_of_lexeme? hm)
    have hcs := append_drop_of_lexeme? hm
    have hlength := congrArg List.length hcs
    obtain ⟨hfirst, hlater⟩ := List.forall_mem_cons.1 hgap
    rw [List.length_append] at hlength
    rw [List.length_cons] at hl
    rw [holds_ofChars_iff (by rw [List.length_cons]; omega)] at hfirst
    -- the character is not one of the token, so it comes behind it
    rw [← hcs, ← List.cons_append] at hc
    obtain ⟨pre, rfl, hrest⟩ := exists_append_of_utf8ByteSize_le hc (by omega)
    refine ih (by omega) hrest ?_
    rw [String.ofList_append, String.utf8ByteSize_append, hsize, List.length_cons,
      Nat.add_comm more.length, ← Nat.add_assoc, ← Nat.add_assoc] at hlater
    exact hlater

/-- **What characters are cut into by the lexer tiles them.** -/
theorem Lexes.cut {offset : Nat} {chars : List Char} {tokens : List Token}
    (h : Lexes offset chars tokens) (hl : offset + chars.length ≤ Span.limit) :
    Cut offset chars tokens where
  arranged := h.arranged hl
  stands := by
    intro t ht
    obtain ⟨pre, mid, post, rfl, he, hs, hr⟩ := h.exists_eq_ofChars ht
    rw [List.length_append, List.length_append] at hl
    have hsub : pre ⊆ pre ++ mid ++ post := fun c hc => by simp [hc]
    have hpre := h.utf8ByteSize_ofList hsub
    have hmid := utf8ByteSize_ofList_of_spells hs
    have hle : offset + pre.length ≤ Span.limit := by omega
    have hle' : offset + pre.length + mid.length ≤ Span.limit := by omega
    obtain ⟨hstart, hstop⟩ := Span.ofRange_eq hle hle'
    have htext : t.text = .ofList mid := by
      rw [← String.toList_inj, he, toList_text_ofChars (by omega), String.toList_ofList]
    have hspan : t.span = .ofRange (offset + pre.length) (offset + pre.length + mid.length) :=
      congrArg Token.span he
    refine ⟨pre, post, ?_, ?_, ?_, ?_, ?_⟩
    · rw [htext, String.toList_ofList]
    · rw [hspan, hstart, hpre]
    · rw [hspan, hstart, hstop, htext, hmid]
    · rwa [htext, String.toList_ofList]
    · rwa [htext, String.toList_ofList]
  blank := fun _ _ _ => h.isBlank_of_gap hl

/-! ## From a tiling to the lexer -/

/-- Blanks may be put in front. -/
theorem Lexes.blanks {offset : Nat} {pre rest : List Char} {tokens : List Token}
    (hpre : ∀ c ∈ pre, isBlank c = true) (h : Lexes (offset + pre.length) rest tokens) :
    Lexes offset (pre ++ rest) tokens := by
  induction pre generalizing offset with
  | nil => exact h
  | cons c pre ih =>
    obtain ⟨hc, hpre⟩ := List.forall_mem_cons.1 hpre
    refine .blank hc (ih hpre ?_)
    rw [List.length_cons, Nat.add_comm pre.length, ← Nat.add_assoc] at h
    exact h

theorem utf8ByteSize_ofList_of_isBlank {cs : List Char} (h : ∀ c ∈ cs, isBlank c = true) :
    (String.ofList cs).utf8ByteSize = cs.length :=
  utf8ByteSize_ofList fun c hc => utf8Size_of_isLexical (by simp [isLexical, h c hc])

/-- A token that stands among characters is made of them. -/
theorem eq_ofChars {t : Token} {start : Nat} (hstart : t.span.start.toNat = start)
    (hstop : t.span.stop.toNat = start + t.text.toList.length) :
    t = ofChars t.kind start t.text.toList := by
  have hlimit : t.span.stop.toNat ≤ Span.limit := by
    have := t.span.stop.toNat_lt_size
    rw [Span.limit]
    omega
  have hspan : t.span = .ofRange start (start + t.text.toList.length) := by
    have hfits : start ≤ Span.limit := by omega
    obtain ⟨hs, ht⟩ := Span.ofRange_eq hfits (hstop ▸ hlimit)
    rw [Span.eq_iff, hs, ht]
    exact ⟨hstart, hstop⟩
  have htext : t.text = (ofChars t.kind start t.text.toList).text := by
    rw [← String.toList_inj, toList_text_ofChars (by omega)]
  cases t
  simp only [ofChars] at *
  rw [← hspan, ← htext]

/-- The part of a tiling behind its first token is a tiling of the characters there. -/
theorem Cut.tail {offset : Nat} {pre post : List Char} {t : Token} {ts : List Token}
    (h : Cut offset (pre ++ t.text.toList ++ post) (t :: ts))
    (hstart : t.span.start.toNat = offset + (String.ofList pre).utf8ByteSize)
    (hstop : t.span.stop.toNat = t.span.start.toNat + t.text.utf8ByteSize) :
    Cut t.span.stop.toNat post ts := by
  have hsize : offset + (String.ofList (pre ++ t.text.toList)).utf8ByteSize = t.span.stop.toNat := by
    rw [String.ofList_append, String.utf8ByteSize_append, String.ofList_toList]
    omega
  obtain ⟨-, hnext, -⟩ := Span.inOrder_cons_iff.1 h.arranged.inOrder
  rw [List.forall_mem_map] at hnext
  refine ⟨h.arranged.sublist (List.sublist_cons_self t ts), fun u hu => ?_, fun xs c ys hys hgap => ?_⟩
  · obtain ⟨xs, ys, hxs, hustart, hrest⟩ := h.stands u (List.mem_cons_of_mem t hu)
    have hle := UInt32.le_iff_toNat_le.1 (hnext u hu)
    rw [List.append_assoc xs] at hxs
    obtain ⟨mid, rfl, hpost⟩ := exists_append_of_utf8ByteSize_le hxs (by omega)
    rw [String.ofList_append, String.utf8ByteSize_append, ← Nat.add_assoc, hsize] at hustart
    exact ⟨mid, ys, by rw [hpost, List.append_assoc], hustart, hrest⟩
  · refine h.blank (pre ++ t.text.toList ++ xs) c ys (by rw [hys, List.append_assoc _ xs]) ?_
    rw [String.ofList_append, String.utf8ByteSize_append, ← Nat.add_assoc, hsize]
    refine List.forall_mem_cons.2 ⟨fun hholds => ?_, hgap⟩
    exact absurd hholds.2 (by omega)

/-- Before the first token of a tiling there are only blanks. -/
theorem Cut.isBlank_of_mem {offset : Nat} {pre rest : List Char} {t : Token} {ts : List Token}
    (h : Cut offset (pre ++ rest) (t :: ts))
    (hstart : t.span.start.toNat = offset + (String.ofList pre).utf8ByteSize) :
    ∀ c ∈ pre, isBlank c = true := by
  intro c hc
  obtain ⟨xs, ys, rfl⟩ := List.append_of_mem hc
  have hpos := c.utf8Size_pos
  rw [String.ofList_append, String.utf8ByteSize_append, utf8ByteSize_ofList_cons] at hstart
  refine h.blank xs c (ys ++ rest) (by simp) fun u hu hholds => ?_
  have hle := UInt32.le_iff_toNat_le.1
    (h.arranged.inOrder.start_le_of_cons u.span (List.mem_map_of_mem hu))
  have := hholds.1
  omega

/-- **The lexer cuts characters as a tiling of them does.** -/
theorem Cut.lexes {offset : Nat} {chars : List Char} {tokens : List Token}
    (h : Cut offset chars tokens) : Lexes offset chars tokens := by
  induction tokens generalizing offset chars with
  | nil =>
    have hblank : ∀ c ∈ chars, isBlank c = true := by
      intro c hc
      obtain ⟨pre, post, rfl⟩ := List.append_of_mem hc
      exact h.blank pre c post rfl nofun
    rw [← List.append_nil chars]
    exact .blanks hblank .nil
  | cons t ts ih =>
    obtain ⟨pre, post, rfl, hstart, hstop, hs, hr⟩ := h.stands t List.mem_cons_self
    have hrest := ih (h.tail hstart hstop)
    rw [List.append_assoc] at h ⊢
    have hpre := h.isBlank_of_mem hstart
    have hsize := utf8ByteSize_ofList_of_spells hs
    rw [String.ofList_toList] at hsize
    rw [utf8ByteSize_ofList_of_isBlank hpre] at hstart
    rw [hsize, hstart] at hstop
    rw [hstop] at hrest
    have hall := Lexes.blanks hpre (.prepend hs hr hrest)
    rwa [← eq_ofChars hstart hstop] at hall

/-! ## Bytes and characters -/

/-- A tiling in terms of bytes is one in terms of characters. -/
theorem Tiles.cut {source : String} {tokens : List Token} (h : Tiles source tokens) :
    Cut 0 source.toList tokens where
  arranged := h.arranged
  stands := by
    intro t ht
    obtain ⟨pre, post, hsource, hstart, hstop⟩ := h.marks t ht
    have htoList : source.toList = pre.toList ++ t.text.toList ++ post.toList := by
      rw [hsource, String.toList_append, String.toList_append]
    refine ⟨pre.toList, post.toList, htoList, ?_, by omega, h.spells t ht, ?_⟩
    · rw [String.ofList_toList, Nat.zero_add, hstart]
    · rintro hk c cs hpost
      obtain ⟨b, hb, hdigit⟩ :=
        Text.exists_getElem?_bytes (fun _ => toNat_lt_of_isDigit) (pre ++ t.text).toList c cs
      rw [← hpost, ← String.toList_append, ← hsource, String.ofList_toList, String.ofList_toList,
        String.utf8ByteSize_append, ← hstop] at hb
      rw [← hdigit]
      exact h.longest t ht hk b hb
  blank := by
    intro pre c post hsource hgap
    obtain ⟨b, hb, hblank⟩ :=
      Text.exists_getElem?_bytes (fun _ => toNat_lt_of_isBlank) pre c post
    rw [← hsource, String.ofList_toList] at hb
    rw [Nat.zero_add] at hgap
    rw [← hblank]
    exact h.blank _ b hb hgap

/-- In a text of one-byte characters every byte is the place of a character. -/
theorem exists_append_of_lt {chars : List Char} (h : ∀ c ∈ chars, c.utf8Size = 1) {i : Nat}
    (hi : i < (String.ofList chars).utf8ByteSize) :
    ∃ pre c post, chars = pre ++ c :: post ∧ (String.ofList pre).utf8ByteSize = i := by
  rw [utf8ByteSize_ofList h] at hi
  refine ⟨chars.take i, chars[i], chars.drop (i + 1), ?_, ?_⟩
  · rw [← List.drop_eq_getElem_cons hi, List.take_append_drop]
  · rw [utf8ByteSize_ofList fun c hc => h c (List.mem_of_mem_take hc), List.length_take]
    omega

/-- A tiling in terms of characters is one in terms of bytes. -/
theorem Cut.tiles {source : String} {tokens : List Token} (h : Cut 0 source.toList tokens) :
    Tiles source tokens := by
  have hsize : ∀ c ∈ source.toList, c.utf8Size = 1 := fun c hc =>
    utf8Size_of_isLexical (h.lexes.isLexical c hc)
  have hmarks : ∀ t ∈ tokens, t.span.Marks source t.text := by
    intro t ht
    obtain ⟨pre, post, hsource, hstart, hstop, -, -⟩ := h.stands t ht
    refine ⟨.ofList pre, .ofList post, ?_, by omega, by omega⟩
    rw [← String.toList_inj, hsource]
    simp
  constructor
  case arranged => exact h.arranged
  case within =>
    intro t ht
    obtain ⟨pre, post, hsource, -, hstop⟩ := hmarks t ht
    rw [hsource, String.utf8ByteSize_append, String.utf8ByteSize_append]
    omega
  case marks => exact hmarks
  case spells =>
    intro t ht
    obtain ⟨-, -, -, -, -, hs, -⟩ := h.stands t ht
    exact hs
  case blank =>
    intro i b hb hgap
    have hi : i < source.utf8ByteSize := (List.getElem?_eq_some_iff.1 hb).1
    rw [← String.ofList_toList (s := source)] at hi
    obtain ⟨pre, c, post, hsource, rfl⟩ := exists_append_of_lt hsize hi
    obtain ⟨d, hd, hblank⟩ :=
      Text.exists_getElem?_bytes (fun _ => toNat_lt_of_isBlank) pre c post
    rw [← hsource, String.ofList_toList, hb] at hd
    obtain rfl := Option.some.inj hd
    rw [hblank]
    refine h.blank pre c post hsource ?_
    rwa [Nat.zero_add]
  case longest =>
    intro t ht hk b hb
    obtain ⟨pre, post, hsource, hstart, hstop, -, hr⟩ := h.stands t ht
    have hstop : t.span.stop.toNat = (String.ofList (pre ++ t.text.toList)).utf8ByteSize := by
      rw [String.ofList_append, String.utf8ByteSize_append, String.ofList_toList]
      omega
    rw [hstop] at hb
    cases post with
    | nil =>
      -- nothing stands behind the end of the source
      rw [List.append_nil] at hsource
      rw [← hsource, String.ofList_toList] at hb
      exact absurd (List.getElem?_eq_some_iff.1 hb).1 (Nat.lt_irrefl _)
    | cons c cs =>
      obtain ⟨d, hd, hdigit⟩ :=
        Text.exists_getElem?_bytes (fun _ => toNat_lt_of_isDigit) (pre ++ t.text.toList) c cs
      rw [← hsource, String.ofList_toList, hb] at hd
      obtain rfl := Option.some.inj hd
      rw [hdigit]
      exact hr hk c cs rfl

/-! ## Sources -/

/-- **A source is lexed into the only list of tokens that tiles it.** -/
theorem lex_eq_ok_iff_tiles {source : String} (hl : source.utf8ByteSize ≤ Span.limit)
    {tokens : List Token} :
    lex source = .ok tokens ↔ Tiles source tokens ∧ ∀ ts, Tiles source ts → ts = tokens := by
  have hlex : ∀ ts, Tiles source ts → lex source = .ok ts := fun ts h =>
    lex_eq_ok_iff.2 h.cut.lexes
  constructor
  · intro h
    have hlength := length_le_utf8ByteSize source
    exact ⟨((lex_eq_ok_iff.1 h).cut (by omega)).tiles,
      fun ts hts => Except.ok.inj ((hlex ts hts).symm.trans h)⟩
  · rintro ⟨h, -⟩
    exact hlex tokens h

/-- Of two minus signs before a digit the second one belongs to the number, and after a number a
minus sign does as well. -/
theorem tiles_minus_signs :
    "--5-3".utf8ByteSize ≤ Span.limit ∧
      Tiles "--5-3" [.ofChars .symbol 0 ['-'], .ofChars .number 1 ['-', '5'],
        .ofChars .number 3 ['-', '3']] ∧
      ∀ ts, Tiles "--5-3" ts → ts = [.ofChars .symbol 0 ['-'], .ofChars .number 1 ['-', '5'],
        .ofChars .number 3 ['-', '3']] := by
  have hl : "--5-3".utf8ByteSize ≤ Span.limit := by decide
  have hlex : (lex "--5-3").toOption = some [.ofChars .symbol 0 ['-'],
      .ofChars .number 1 ['-', '5'], .ofChars .number 3 ['-', '3']] := by decide +kernel
  cases htokens : lex "--5-3" with
  | error e =>
    rw [htokens] at hlex
    cases hlex
  | ok tokens =>
    rw [htokens] at hlex
    cases hlex
    obtain ⟨htiles, hunique⟩ := (lex_eq_ok_iff_tiles hl).1 htokens
    exact ⟨hl, htiles, hunique⟩

end Token

end Abacus
