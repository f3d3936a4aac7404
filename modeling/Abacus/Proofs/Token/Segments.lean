import Abacus.Proofs.Span
import Abacus.Proofs.Token.Lexing

/-!
# Segments of a lexed source

The tokens of a source stand one after the other, so any run of them can be cut out together with
the characters that it covers. The characters of a run are cut into just these tokens again, also
when nothing follows: the last token is the longest one there too. Where the characters stand shows
only in the spans, and moving them moves the spans.

Headlines:
* `Lexes.bounds`, `Lexes.arranged`: tokens are not empty and do not overlap.
* `Lexes.exists_segment`: a run of tokens is what a piece of the source is cut into.
* `Lexes.moveBack`, `Lexes.moveForward`: the same characters further left or right give the same
  tokens there.
* `Span.Marks.unique`: a span holds one text at most.
-/

namespace Abacus

/-! ## Texts at spans -/

/-- Of two beginnings of a text the one with fewer bytes is a beginning of the other. -/
theorem exists_append_of_utf8ByteSize_le {as bs cs ds : List Char} (h : as ++ bs = cs ++ ds)
    (hsize : (String.ofList as).utf8ByteSize ≤ (String.ofList cs).utf8ByteSize) :
    ∃ mid, cs = as ++ mid ∧ bs = mid ++ ds := by
  rcases List.append_eq_append_iff.1 h with hmid | ⟨mid, rfl, rfl⟩
  · exact hmid
  · rw [String.ofList_append, String.utf8ByteSize_append] at hsize
    have hmid : (String.ofList mid).utf8ByteSize = 0 := by omega
    obtain rfl := String.ofList_eq_empty_iff.1 (String.utf8ByteSize_eq_zero_iff.1 hmid)
    exact ⟨[], by simp, rfl⟩

theorem append_inj_of_utf8ByteSize {as bs cs ds : List Char} (h : as ++ bs = cs ++ ds)
    (hsize : (String.ofList as).utf8ByteSize = (String.ofList cs).utf8ByteSize) :
    as = cs ∧ bs = ds := by
  obtain ⟨mid, rfl, rfl⟩ := exists_append_of_utf8ByteSize_le h (Nat.le_of_eq hsize)
  rw [String.ofList_append, String.utf8ByteSize_append] at hsize
  have hmid : (String.ofList mid).utf8ByteSize = 0 := by omega
  obtain rfl := String.ofList_eq_empty_iff.1 (String.utf8ByteSize_eq_zero_iff.1 hmid)
  exact ⟨(List.append_nil as).symm, rfl⟩

/-- **A span holds one text at most.** -/
theorem Span.Marks.unique {s : Span} {source text other : String} (h : s.Marks source text)
    (h' : s.Marks source other) : other = text := by
  obtain ⟨pre, post, he, hstart, hstop⟩ := h
  obtain ⟨pre', post', he', hstart', hstop'⟩ := h'
  have happend : pre.toList ++ (text.toList ++ post.toList) =
      pre'.toList ++ (other.toList ++ post'.toList) := by
    rw [← List.append_assoc, ← List.append_assoc, ← String.toList_append, ← String.toList_append,
      ← String.toList_append, ← String.toList_append, ← he, ← he']
  obtain ⟨-, hrest⟩ := append_inj_of_utf8ByteSize happend
    (by rw [String.ofList_toList, String.ofList_toList]; omega)
  obtain ⟨htext, -⟩ := append_inj_of_utf8ByteSize hrest
    (by rw [String.ofList_toList, String.ofList_toList]; omega)
  exact String.toList_inj.1 htext.symm

namespace Token

/-! ## Moving tokens -/

/-- A token moved towards the start of the source. -/
def moveBack (distance : UInt32) (t : Token) : Token := { t with span := t.span.moveBack distance }

theorem moveBack_ofChars {kind : Kind} {k offset : Nat} {chars : List Char}
    (h : k + offset + chars.length ≤ Span.limit) :
    (ofChars kind (k + offset) chars).moveBack (.ofNatClamp k) = ofChars kind offset chars := by
  have hspan : (Span.ofRange (k + offset) (k + offset + chars.length)).moveBack (.ofNatClamp k) =
      .ofRange offset (offset + chars.length) := by
    rw [Nat.add_assoc]
    exact Span.moveBack_ofRange (by omega) (by omega)
  have htext : (ofChars kind (k + offset) chars).text = (ofChars kind offset chars).text := by
    rw [← String.toList_inj, toList_text_ofChars h, toList_text_ofChars (by omega)]
  rw [moveBack, htext]
  exact congrArg (fun s => Token.mk kind s _) hspan

/-- A token moved towards the end of the source. -/
def moveForward (distance : Nat) (t : Token) : Token :=
  { t with span := t.span.moveForward distance }

theorem moveForward_ofChars {kind : Kind} {k offset : Nat} {chars : List Char}
    (h : k + offset + chars.length ≤ Span.limit) :
    (ofChars kind offset chars).moveForward k = ofChars kind (k + offset) chars := by
  have hspan : (Span.ofRange offset (offset + chars.length)).moveForward k =
      .ofRange (k + offset) (k + offset + chars.length) := by
    rw [Span.moveForward_ofRange, Nat.add_assoc]
  have htext : (ofChars kind offset chars).text = (ofChars kind (k + offset) chars).text := by
    rw [← String.toList_inj, toList_text_ofChars h, toList_text_ofChars (by omega)]
  rw [moveForward, htext]
  exact congrArg (fun s => Token.mk kind s _) hspan

/-- **Characters are cut in the same way wherever they stand**: a map that carries the tokens of one
place to those of another carries the cuts. -/
theorem Lexes.relocate {f : Token → Token} {offset place : Nat} {chars : List Char}
    {tokens : List Token} (h : Lexes offset chars tokens)
    (hf : ∀ kind i cs, i + cs.length ≤ chars.length →
      f (ofChars kind (offset + i) cs) = ofChars kind (place + i) cs) :
    Lexes place chars (tokens.map f) := by
  induction h generalizing place with
  | nil => exact .nil
  | @blank offset c cs tokens hc _ ih =>
    refine .blank hc (ih fun kind i ds hi => ?_)
    rw [Nat.add_assoc, Nat.add_assoc]
    exact hf kind (1 + i) ds (by rw [List.length_cons]; omega)
  | @token offset c cs more kind tokens hc hm _ ih =>
    have hcs := congrArg List.length (append_drop_of_lexeme? hm)
    rw [List.length_append] at hcs
    have hfirst := hf kind 0 (c :: more) (by simp only [List.length_cons]; omega)
    rw [Nat.add_zero, Nat.add_zero] at hfirst
    rw [List.map_cons, hfirst]
    refine .token hc hm (ih fun kind i ds hi => ?_)
    rw [Nat.add_assoc, Nat.add_assoc, Nat.add_assoc, Nat.add_assoc, ← Nat.add_assoc 1]
    exact hf kind (1 + more.length + i) ds (by rw [List.length_cons]; omega)

/-- **The same characters further left give the same tokens further left.** -/
theorem Lexes.moveBack {k offset : Nat} {chars : List Char} {tokens : List Token}
    (h : Lexes (k + offset) chars tokens) (hl : k + offset + chars.length ≤ Span.limit) :
    Lexes offset chars (tokens.map (Token.moveBack (.ofNatClamp k))) := by
  refine h.relocate fun kind i cs hi => ?_
  rw [Nat.add_assoc]
  exact moveBack_ofChars (by omega)

/-- **The same characters further right give the same tokens further right.** -/
theorem Lexes.moveForward {k offset : Nat} {chars : List Char} {tokens : List Token}
    (h : Lexes offset chars tokens) (hl : k + offset + chars.length ≤ Span.limit) :
    Lexes (k + offset) chars (tokens.map (Token.moveForward k)) := by
  refine h.relocate fun kind i cs hi => ?_
  rw [Nat.add_assoc]
  exact moveForward_ofChars (by omega)

/-! ## The order of tokens -/

/-- **A token is not empty** and stands among the characters that it was cut from. -/
theorem Lexes.bounds {offset : Nat} {chars : List Char} {tokens : List Token}
    (h : Lexes offset chars tokens) (hl : offset + chars.length ≤ Span.limit) {t : Token}
    (ht : t ∈ tokens) : offset ≤ t.span.start.toNat ∧ t.span.start.toNat < t.span.stop.toNat ∧
      t.span.stop.toNat ≤ offset + chars.length := by
  obtain ⟨pre, mid, post, hchars, he, hs, -⟩ := h.exists_eq_ofChars ht
  have hpos := List.length_pos_iff.2 (ne_nil_of_spells hs)
  rw [hchars, List.length_append, List.length_append] at hl ⊢
  have hle : offset + pre.length ≤ Span.limit := by omega
  have hle' : offset + pre.length + mid.length ≤ Span.limit := by omega
  obtain ⟨hstart, hstop⟩ := Span.ofRange_eq hle hle'
  rw [show t.span = .ofRange (offset + pre.length) (offset + pre.length + mid.length) from
    congrArg Token.span he, hstart, hstop]
  omega

/-- **Tokens do not overlap** and stand in the order of the source. -/
theorem Lexes.inOrder {offset : Nat} {chars : List Char} {tokens : List Token}
    (h : Lexes offset chars tokens) (hl : offset + chars.length ≤ Span.limit) :
    Span.InOrder (tokens.map Token.span) := by
  induction h with
  | nil => exact Span.inOrder_nil
  | blank hc _ ih =>
    rw [List.length_cons] at hl
    exact ih (by omega)
  | @token offset c cs more kind tokens hc hm hrest ih =>
    have hfirst := (Lexes.token hc hm hrest).bounds hl List.mem_cons_self
    have hcs := congrArg List.length (append_drop_of_lexeme? hm)
    rw [List.length_append] at hcs
    rw [List.length_cons] at hl
    rw [List.map_cons, Span.inOrder_cons_iff, List.forall_mem_map]
    refine ⟨UInt32.le_iff_toNat_le.2 (by omega), fun t ht => ?_, ih (by omega)⟩
    have hstop : (ofChars kind offset (c :: more)).span.stop.toNat ≤ offset + 1 + more.length := by
      rw [ofChars, Span.toNat_stop_ofRange, List.length_cons]
      omega
    exact UInt32.le_iff_toNat_le.2 (Nat.le_trans hstop (hrest.bounds (by omega) ht).1)

/-- Tokens one after the other, none of which is empty. -/
structure Arranged (ts : List Token) : Prop where
  start_lt_stop : ∀ t ∈ ts, t.span.start < t.span.stop
  inOrder : Span.InOrder (ts.map Token.span)

theorem Arranged.sublist {ts us : List Token} (h : Arranged ts) (hs : us.Sublist ts) :
    Arranged us :=
  ⟨fun t ht => h.start_lt_stop t (hs.mem ht), h.inOrder.sublist (hs.map Token.span)⟩

/-- **The tokens of a source are arranged.** -/
theorem Lexes.arranged {offset : Nat} {chars : List Char} {tokens : List Token}
    (h : Lexes offset chars tokens) (hl : offset + chars.length ≤ Span.limit) :
    Arranged tokens :=
  ⟨fun _ ht => UInt32.lt_iff_toNat_lt.2 (h.bounds hl ht).2.1, h.inOrder hl⟩

/-! ## Cutting out a run of tokens -/

/-- The first of the tokens begins at `start` and the last one ends at `stop`. -/
structure Covers (ts : List Token) (start stop : Nat) : Prop where
  first : ∀ t ∈ ts.head?, t.span.start = .ofNatClamp start
  last : ∀ t ∈ ts.getLast?, t.span.stop = .ofNatClamp stop

theorem takeWhile_eq_nil_of_append {p : Char → Bool} {ys zs : List Char}
    (h : (ys ++ zs).takeWhile p = []) : ys.takeWhile p = [] := by
  cases ys with
  | nil => rfl
  | cons y ys =>
    rw [List.cons_append, List.takeWhile_cons] at h
    split at h
    · cases h
    · next hy => exact List.takeWhile_cons_of_neg hy

theorem takeWhile_append_cut {p : Char → Bool} {xs ys zs : List Char}
    (h : (xs ++ (ys ++ zs)).takeWhile p = xs) : (xs ++ ys).takeWhile p = xs := by
  have hxs : ∀ x ∈ xs, p x = true := by
    intro x hx
    rw [← h] at hx
    exact List.all_eq_true.1 List.all_takeWhile x hx
  rw [List.takeWhile_append_of_pos hxs, List.append_right_eq_self] at h ⊢
  exact takeWhile_eq_nil_of_append h

/-- A token is the longest one also if the source ends somewhere behind it. -/
theorem lexeme?_append_cut {c : Char} {more pre post : List Char} {kind : Kind}
    (h : lexeme? c (more ++ (pre ++ post)) = some (kind, more)) :
    lexeme? c (more ++ pre) = some (kind, more) := by
  unfold lexeme? at h ⊢
  split at h
  · next hc =>
    obtain ⟨rfl, hmore⟩ := Prod.mk.inj (Option.some.inj h)
    rw [hmore] at hc
    rw [takeWhile_append_cut hmore, if_pos hc]
  · next hc =>
    obtain ⟨k, hk, he⟩ := Option.map_eq_some_iff.1 h
    cases he
    rw [if_neg, hk, Option.map_some]
    rintro (hd | ⟨hminus, hne⟩)
    · exact hc (.inl hd)
    · exact hc (.inr ⟨hminus, fun hnil => hne (takeWhile_eq_nil_of_append hnil)⟩)

/-- The characters up to the end of a run of tokens are cut into these tokens, and those after it
into the other ones. -/
theorem Lexes.exists_split {offset : Nat} {chars : List Char} {ts us : List Token}
    (h : Lexes offset chars (ts ++ us)) :
    ∃ pre post, chars = pre ++ post ∧ Lexes offset pre ts ∧ Lexes (offset + pre.length) post us ∧
      (ts = [] → pre = []) ∧ ∀ t ∈ ts.getLast?, t.span.stop = .ofNatClamp (offset + pre.length) := by
  generalize htokens : ts ++ us = tokens at h
  induction h generalizing ts with
  | nil =>
    obtain ⟨rfl, rfl⟩ := List.append_eq_nil_iff.1 htokens
    exact ⟨[], [], rfl, .nil, .nil, fun _ => rfl, nofun⟩
  | @blank offset c cs tokens hc h ih =>
    cases ts with
    | nil =>
      subst htokens
      exact ⟨[], c :: cs, rfl, .nil, .blank hc h, fun _ => rfl, nofun⟩
    | cons t ts =>
      obtain ⟨pre, post, rfl, hpre, hpost, -, hlast⟩ := ih htokens
      have hlength : offset + (c :: pre).length = offset + 1 + pre.length := by
        rw [List.length_cons]
        omega
      rw [← hlength] at hpost hlast
      exact ⟨c :: pre, post, rfl, .blank hc hpre, hpost, nofun, hlast⟩
  | @token offset c cs more kind tokens hc hm h ih =>
    cases ts with
    | nil =>
      subst htokens
      exact ⟨[], c :: cs, rfl, .nil, .token hc hm h, fun _ => rfl, nofun⟩
    | cons t ts =>
      obtain ⟨rfl, hts⟩ := List.cons.inj htokens
      obtain ⟨pre, post, hdrop, hpre, hpost, hnil, hlast⟩ := ih hts
      have hcs := append_drop_of_lexeme? hm
      rw [hdrop] at hcs
      have hlength : offset + (c :: (more ++ pre)).length =
          offset + 1 + more.length + pre.length := by
        rw [List.length_cons, List.length_append]
        omega
      rw [← hlength] at hpost hlast
      refine ⟨c :: (more ++ pre), post, ?_, .token hc ?_ ?_, hpost, nofun, ?_⟩
      · rw [← hcs, List.cons_append, List.append_assoc]
      · exact lexeme?_append_cut (hcs ▸ hm)
      · rw [List.drop_left]
        exact hpre
      · cases ts with
        | nil =>
          rw [hnil rfl, List.append_nil]
          rintro _ ⟨⟩
          rfl
        | cons t ts => exact hlast

/-- Blanks in front of the first token do not matter. -/
theorem Lexes.exists_trim {offset : Nat} {chars : List Char} {t : Token} {ts : List Token}
    (h : Lexes offset chars (t :: ts)) :
    ∃ blanks rest, chars = blanks ++ rest ∧ Lexes (offset + blanks.length) rest (t :: ts) ∧
      t.span.start = .ofNatClamp (offset + blanks.length) := by
  generalize htokens : t :: ts = tokens at h
  induction h with
  | nil => cases htokens
  | @blank offset c cs tokens hc _ ih =>
    obtain ⟨blanks, rest, rfl, hrest, hstart⟩ := ih htokens
    have hlength : offset + (c :: blanks).length = offset + 1 + blanks.length := by
      rw [List.length_cons]
      omega
    rw [← hlength] at hrest hstart
    exact ⟨c :: blanks, rest, rfl, hrest, hstart⟩
  | @token offset c cs more kind tokens hc hm h _ =>
    cases htokens
    exact ⟨[], c :: cs, rfl, .token hc hm h, rfl⟩

/-- **A run of tokens can be cut out.** It is what the characters from the first of its tokens to the
last one are cut into, wherever they stand. -/
theorem Lexes.exists_segment {offset : Nat} {chars : List Char} {before us after : List Token}
    (h : Lexes offset chars (before ++ us ++ after)) (hus : us ≠ []) :
    ∃ pre mid post, chars = pre ++ mid ++ post ∧ Lexes (offset + pre.length) mid us ∧
      Covers us (offset + pre.length) (offset + pre.length + mid.length) := by
  rw [List.append_assoc] at h
  obtain ⟨pre, rest, rfl, -, hrest, -⟩ := h.exists_split
  obtain ⟨u, us, rfl⟩ := List.exists_cons_of_ne_nil hus
  obtain ⟨blanks, rest, rfl, hrest, hfirst⟩ := hrest.exists_trim
  change Lexes _ _ ((u :: us) ++ after) at hrest
  obtain ⟨mid, post, rfl, hmid, -, -, hlast⟩ := hrest.exists_split
  have hlength : offset + (pre ++ blanks).length = offset + pre.length + blanks.length := by
    rw [List.length_append]
    omega
  refine ⟨pre ++ blanks, mid, post, by simp, hlength ▸ hmid, ⟨?_, hlength ▸ hlast⟩⟩
  rintro _ ⟨⟩
  exact hlength ▸ hfirst

end Token

end Abacus
