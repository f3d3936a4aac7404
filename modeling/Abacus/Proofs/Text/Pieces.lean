import Abacus.Text.Blank
import Abacus.Text.Lines
import Mathlib.Data.List.DropRight

/-!
# Pieces of a text

A text may be cut after each line feed. The pieces make up the text, all but the last one end with
a line feed, and none has one elsewhere. The byte of a line feed is no part of any other character,
so cutting the bytes of a text gives the bytes of its pieces. What a session takes off its input is
the first piece, and the lines of a text are its pieces without what ends them.

Headlines:
* `induct_cut`: induction that takes one piece after the other.
* `flatten_cutAfter`, `form_of_mem_cutAfter`: what the pieces are.
* `pieces_eq_takeLine`: a line of bytes is the first piece of the input.
* `pieces_bytes`: the pieces of the bytes of a text are the bytes of its pieces.
* `lines_eq`: lines are pieces without their line feed and a carriage return before it.
-/

namespace Abacus.Text

/-! ## Cutting a list -/

section Cut

variable {α : Type}

/-- A list cut after each element with a property. -/
def cutAfter (p : α → Bool) : List α → List (List α)
  | [] => []
  | x :: xs =>
    if p x then [x] :: cutAfter p xs
    else
      match cutAfter p xs with
      | [] => [[x]]
      | piece :: pieces => (x :: piece) :: pieces

variable {p : α → Bool}

/-- **The pieces make up the list.** -/
theorem flatten_cutAfter (xs : List α) : (cutAfter p xs).flatten = xs := by
  induction xs with
  | nil => rfl
  | cons x xs ih =>
    rw [cutAfter]
    split
    · rw [List.flatten_cons, ih, List.singleton_append]
    · split
      · next h =>
        rw [h] at ih
        rw [← ih]
        rfl
      · next piece pieces h =>
        rw [h] at ih
        rw [← ih]
        rfl

/-- A list without a place to cut is one piece. -/
theorem cutAfter_of_forall {xs : List α} (hne : xs ≠ []) (h : ∀ x ∈ xs, p x = false) :
    cutAfter p xs = [xs] := by
  induction xs with
  | nil => exact absurd rfl hne
  | cons x xs ih =>
    obtain ⟨hx, hxs⟩ := List.forall_mem_cons.1 h
    rw [cutAfter, hx]
    cases xs with
    | nil => rfl
    | cons y ys => rw [ih (List.cons_ne_nil y ys) hxs]; rfl

/-- The first piece ends at the first place to cut. -/
theorem cutAfter_append_cons {xs : List α} {y : α} (h : ∀ x ∈ xs, p x = false) (hy : p y = true)
    (ys : List α) : cutAfter p (xs ++ y :: ys) = (xs ++ [y]) :: cutAfter p ys := by
  induction xs with
  | nil => rw [List.nil_append, cutAfter, if_pos hy, List.nil_append]
  | cons x xs ih =>
    obtain ⟨hx, hxs⟩ := List.forall_mem_cons.1 h
    rw [List.cons_append, cutAfter, hx, ih hxs]
    rfl

/-- Pieces that are put together are found again. -/
theorem cutAfter_flatMap {β : Type} {f : β → List α} {bs : List β}
    (h : ∀ b ∈ bs, ∃ xs y, f b = xs ++ [y] ∧ (∀ x ∈ xs, p x = false) ∧ p y = true) :
    cutAfter p (bs.flatMap f) = bs.map f := by
  induction bs with
  | nil => rfl
  | cons b bs ih =>
    obtain ⟨⟨xs, y, hb, hxs, hy⟩, hbs⟩ := List.forall_mem_cons.1 h
    rw [List.flatMap_cons, List.map_cons, hb, List.append_assoc, List.singleton_append,
      cutAfter_append_cons hxs hy, ih hbs]

/-- **Induction that takes one piece after the other**, up to a rest without a place to cut. -/
@[elab_as_elim]
theorem induct_cut (p : α → Bool) {motive : List α → Prop}
    (rest : ∀ xs, (∀ x ∈ xs, p x = false) → motive xs)
    (piece : ∀ xs y ys, (∀ x ∈ xs, p x = false) → p y = true → motive ys → motive (xs ++ y :: ys))
    (l : List α) : motive l := by
  induction hn : l.length using Nat.strongRecOn generalizing l with
  | _ n ih =>
    subst hn
    have hfront : ∀ x ∈ l.takeWhile (!p ·), p x = false := by
      intro x hx
      simpa using List.all_eq_true.1 List.all_takeWhile x hx
    have hsplit := List.takeWhile_append_dropWhile (p := (!p ·)) (l := l)
    cases hd : l.dropWhile (!p ·) with
    | nil =>
      rw [hd, List.append_nil] at hsplit
      exact rest l (hsplit ▸ hfront)
    | cons y ys =>
      have hy : p y = true := by
        have hne : l.dropWhile (!p ·) ≠ [] := hd ▸ List.cons_ne_nil y ys
        have := List.head_dropWhile_not (!p ·) hne
        simpa [hd] using this
      rw [hd] at hsplit
      rw [← hsplit]
      refine piece _ y ys hfront hy (ih ys.length ?_ ys rfl)
      rw [← hsplit, List.length_append, List.length_cons]
      omega

/-- A piece ends at a place to cut, if it is not the end of the list, and has none before. -/
theorem form_of_mem_cutAfter {l piece : List α} (h : piece ∈ cutAfter p l) :
    ∃ xs, (∀ x ∈ xs, p x = false) ∧ xs ⊆ l ∧ (piece = xs ∨ ∃ y, p y = true ∧ piece = xs ++ [y]) := by
  induction l using induct_cut p with
  | rest xs hxs =>
    refine ⟨xs, hxs, List.Subset.refl xs, ?_⟩
    cases xs with
    | nil => cases h
    | cons x xs =>
      rw [cutAfter_of_forall (List.cons_ne_nil x xs) hxs] at h
      exact .inl (List.mem_singleton.1 h)
  | piece xs y ys hxs hy ih =>
    rw [cutAfter_append_cons hxs hy, List.mem_cons] at h
    rcases h with rfl | h
    · exact ⟨xs, hxs, List.subset_append_left xs _, .inr ⟨y, hy, rfl⟩⟩
    · obtain ⟨zs, hzs, hsub, hform⟩ := ih h
      exact ⟨zs, hzs, fun z hz => List.mem_append_right xs (List.mem_cons_of_mem y (hsub hz)), hform⟩

end Cut

/-! ## Bytes -/

/-- The bytes of a text in UTF-8. -/
def bytes (text : String) : List UInt8 := text.toUTF8.data.toList

theorem length_bytes (text : String) : (bytes text).length = text.utf8ByteSize := rfl

theorem bytes_append (s t : String) : bytes (s ++ t) = bytes s ++ bytes t := by
  rw [bytes, bytes, bytes, String.toUTF8, String.toByteArray_append, ByteArray.data_append,
    Array.toList_append]
  rfl

/-- Whether a byte is that of a line feed. -/
def isLineFeed (b : UInt8) : Bool := b == 0x0A

/-- An input cut after each line feed. -/
def pieces (input : List UInt8) : List (List UInt8) := cutAfter isLineFeed input

theorem takeLine_of_forall {xs : List UInt8} (h : ∀ x ∈ xs, isLineFeed x = false) :
    takeLine xs = (xs, []) := by
  have hdrop : xs.dropWhile (· != 0x0A) = [] :=
    List.dropWhile_eq_nil_iff.2 fun x hx => congrArg not (h x hx)
  rw [takeLine, hdrop]

theorem takeLine_append_cons {xs : List UInt8} {y : UInt8} (h : ∀ x ∈ xs, isLineFeed x = false)
    (hy : isLineFeed y = true) (ys : List UInt8) : takeLine (xs ++ y :: ys) = (xs ++ [y], ys) := by
  have hxs : ∀ x ∈ xs, (x != 0x0A) = true := fun x hx => congrArg not (h x hx)
  obtain rfl : y = 0x0A := beq_iff_eq.1 hy
  have hdrop : (xs ++ 0x0A :: ys).dropWhile (· != 0x0A) = 0x0A :: ys := by
    rw [List.dropWhile_append_of_pos hxs, List.dropWhile_cons_of_neg (by decide)]
  have htake : (xs ++ 0x0A :: ys).takeWhile (· != 0x0A) = xs := by
    rw [List.takeWhile_append_of_pos hxs, List.takeWhile_cons_of_neg (by decide), List.append_nil]
  rw [takeLine, hdrop, htake]

/-- **A line of bytes is the first piece of the input.** -/
theorem pieces_eq_takeLine {input : List UInt8} (h : input ≠ []) :
    pieces input = (takeLine input).1 :: pieces (takeLine input).2 := by
  induction input using induct_cut isLineFeed with
  | rest xs hxs =>
    rw [takeLine_of_forall hxs, pieces, cutAfter_of_forall h hxs]
    rfl
  | piece xs y ys hxs hy _ =>
    rw [takeLine_append_cons hxs hy, pieces, cutAfter_append_cons hxs hy]
    rfl

theorem bytes_ofList (chars : List Char) :
    bytes (.ofList chars) = chars.flatMap String.utf8EncodeChar := by
  rw [bytes, String.toUTF8, String.toByteArray_ofList, List.utf8Encode]
  simp

theorem isLineFeed_ofNat {n : Nat} (h : n < 256) : isLineFeed (.ofNat n) = true ↔ n = 10 := by
  rw [isLineFeed, beq_iff_eq, ← UInt8.toNat_inj, UInt8.toNat_ofNat_of_lt' h]
  rfl

/-- The byte of a line feed is no part of any other character. -/
theorem isLineFeed_of_mem_utf8EncodeChar {c : Char} (hc : c ≠ '\n') :
    ∀ b ∈ String.utf8EncodeChar c, isLineFeed b = false := by
  have hval : c.val.toNat ≠ 10 := fun h => hc (Char.toNat_inj.1 h)
  -- the bytes of a longer encoding are marked by their first bit
  have hmarked : ∀ n, 128 ≤ n → n < 256 → isLineFeed (.ofNat n) = false := by
    intro n hn hlt
    rw [Bool.eq_false_iff, ne_eq, isLineFeed_ofNat hlt]
    omega
  unfold String.utf8EncodeChar
  dsimp only
  split
  · rw [List.forall_mem_singleton, Bool.eq_false_iff, ne_eq, isLineFeed_ofNat (by omega)]
    exact hval
  · split
    · simp only [List.forall_mem_cons]
      exact ⟨hmarked _ (by omega) (by omega), hmarked _ (by omega) (by omega), nofun⟩
    · split
      · simp only [List.forall_mem_cons]
        exact ⟨hmarked _ (by omega) (by omega), hmarked _ (by omega) (by omega),
          hmarked _ (by omega) (by omega), nofun⟩
      · simp only [List.forall_mem_cons]
        exact ⟨hmarked _ (by omega) (by omega), hmarked _ (by omega) (by omega),
          hmarked _ (by omega) (by omega), hmarked _ (by omega) (by omega), nofun⟩

/-- **The pieces of the bytes of a text are the bytes of its pieces.** -/
theorem pieces_bytes (text : List Char) :
    pieces (bytes (.ofList text)) =
      (cutAfter (· == '\n') text).map fun piece => bytes (.ofList piece) := by
  have hplain : ∀ xs : List Char, (∀ x ∈ xs, (x == '\n') = false) →
      ∀ b ∈ bytes (.ofList xs), isLineFeed b = false := by
    intro xs hxs b hb
    rw [bytes_ofList] at hb
    obtain ⟨c, hc, hb⟩ := List.mem_flatMap.1 hb
    exact isLineFeed_of_mem_utf8EncodeChar (by simpa using hxs c hc) b hb
  induction text using induct_cut (· == '\n') with
  | rest xs hxs =>
    cases xs with
    | nil => rfl
    | cons x xs =>
      have hne : bytes (.ofList (x :: xs)) ≠ [] := by
        rw [bytes_ofList, List.flatMap_cons]
        exact List.append_ne_nil_of_left_ne_nil (String.utf8EncodeChar_ne_nil) _
      rw [cutAfter_of_forall (List.cons_ne_nil x xs) hxs, List.map_singleton, pieces,
        cutAfter_of_forall hne (hplain _ hxs)]
  | piece xs y ys hxs hy ih =>
    obtain rfl := beq_iff_eq.1 hy
    have hsplit : bytes (.ofList (xs ++ '\n' :: ys)) =
        bytes (.ofList xs) ++ 0x0A :: bytes (.ofList ys) := by
      simp only [bytes_ofList, List.flatMap_append, List.flatMap_cons]
      rfl
    have hpiece : bytes (.ofList (xs ++ ['\n'])) = bytes (.ofList xs) ++ [0x0A] := by
      simp only [bytes_ofList, List.flatMap_append]
      rfl
    rw [cutAfter_append_cons hxs rfl, List.map_cons, hpiece, ← ih, hsplit, pieces,
      cutAfter_append_cons (hplain xs hxs) rfl, pieces]

/-- The pieces of the bytes of a text are texts. -/
theorem exists_texts_of_pieces_bytes (text : String) :
    ∃ texts : List String, pieces (bytes text) = texts.map bytes ∧
      texts.map String.toList = cutAfter (· == '\n') text.toList := by
  refine ⟨(cutAfter (· == '\n') text.toList).map .ofList, ?_, ?_⟩
  · conv => lhs; rw [← String.ofList_toList (s := text), pieces_bytes]
    rw [List.map_map]
    rfl
  · rw [List.map_map]
    exact List.map_id'' (fun _ => String.toList_ofList) _

/-! ## Lines -/

/-- Whether a character is a line feed or a carriage return. -/
def isLineEnd (c : Char) : Bool := c = '\n' || c = '\r'

/-- A text without the line feeds and carriage returns at its end. -/
def dropLineEnds (text : List Char) : List Char := text.rdropWhile isLineEnd

/-- A piece without its line feed and a carriage return directly before it. -/
def chomp (piece : List Char) : List Char :=
  match piece.reverse with
  | '\n' :: cs => finishLine cs
  | _ => piece

theorem chomp_concat (xs : List Char) : chomp (xs ++ ['\n']) = finishLine xs.reverse := by
  rw [chomp, List.reverse_concat]
  rfl

theorem chomp_of_forall {xs : List Char} (h : ∀ x ∈ xs, (x == '\n') = false) : chomp xs = xs := by
  unfold chomp
  split
  · next cs hcs =>
    have : '\n' ∈ xs := by
      rw [← List.mem_reverse, hcs]
      exact List.mem_cons_self
    cases h _ this
  · rfl

theorem linesFrom_append {xs : List Char} (h : ∀ x ∈ xs, (x == '\n') = false)
    (rest current : List Char) (before : List (List Char)) :
    linesFrom (xs ++ rest) current before = linesFrom rest (xs.reverse ++ current) before := by
  induction xs generalizing current with
  | nil => rfl
  | cons x xs ih =>
    obtain ⟨hx, hxs⟩ := List.forall_mem_cons.1 h
    have hne : x ≠ '\n' := by simpa using hx
    rw [List.cons_append, linesFrom, ih hxs, List.reverse_cons, List.append_assoc,
      List.singleton_append]
    exact hne

/-- **Lines are pieces without what ends them.** -/
theorem lines_eq (text : List Char) : lines text = (cutAfter (· == '\n') text).map chomp := by
  suffices h : ∀ before, linesFrom text [] before =
      before.reverse ++ (cutAfter (· == '\n') text).map chomp from h []
  induction text using induct_cut (· == '\n') with
  | rest xs hxs =>
    intro before
    have hend := linesFrom_append hxs [] [] before
    rw [List.append_nil, List.append_nil] at hend
    rw [hend]
    cases xs with
    | nil => simp [linesFrom, cutAfter]
    | cons x xs =>
      rw [cutAfter_of_forall (List.cons_ne_nil x xs) hxs, List.map_singleton, chomp_of_forall hxs,
        linesFrom]
      · simp
      · simp
  | piece xs y ys hxs hy ih =>
    intro before
    obtain rfl := beq_iff_eq.1 hy
    rw [linesFrom_append hxs, List.append_nil, linesFrom, ih, cutAfter_append_cons hxs hy,
      List.map_cons, chomp_concat, List.reverse_cons, List.append_assoc, List.singleton_append]

/-- Taking off a line feed and a carriage return at the end only does a part of the work. -/
theorem dropLineEnds_chomp (piece : List Char) :
    dropLineEnds (chomp piece) = dropLineEnds piece := by
  unfold chomp
  split
  · next cs hcs =>
    obtain rfl : piece = cs.reverse ++ ['\n'] := by
      rw [← List.reverse_reverse piece, hcs, List.reverse_cons]
    rw [dropLineEnds, dropLineEnds, List.rdropWhile_concat_pos _ _ _ rfl]
    unfold finishLine
    split
    · next ds => rw [List.reverse_cons, List.rdropWhile_concat_pos _ _ _ rfl]
    · rfl
  · rfl

/-- **Without what ends them, lines are pieces.** -/
theorem map_dropLineEnds_lines (text : List Char) :
    (lines text).map dropLineEnds = (cutAfter (· == '\n') text).map dropLineEnds := by
  rw [lines_eq, List.map_map]
  exact List.map_congr_left fun piece _ => dropLineEnds_chomp piece

/-- What is taken off a text are line feeds and carriage returns. -/
theorem exists_dropLineEnds_append (text : List Char) :
    ∃ tail, text = dropLineEnds text ++ tail ∧ ∀ c ∈ tail, c = '\n' ∨ c = '\r' := by
  refine ⟨text.rtakeWhile isLineEnd, List.rdropWhile_append_rtakeWhile.symm, fun c hc => ?_⟩
  simpa [isLineEnd] using List.mem_rtakeWhile_imp hc

/-- Line feeds and carriage returns do not keep a text from being blank. -/
theorem isBlankText_dropLineEnds (text : List Char) :
    isBlankText (dropLineEnds text) = isBlankText text := by
  obtain ⟨tail, htext, htail⟩ := exists_dropLineEnds_append text
  have hblank : tail.all isBlank = true := by
    refine List.all_eq_true.2 fun c hc => ?_
    rcases htail c hc with rfl | rfl <;> rfl
  conv => rhs; rw [htext]
  rw [isBlankText, isBlankText, List.all_append, hblank, Bool.and_true]

/-- A line has no line feed, and nothing that is not in the text. -/
theorem mem_of_mem_lines {text line : List Char} (h : line ∈ lines text) {c : Char}
    (hc : c ∈ line) : c ≠ '\n' ∧ c ∈ text := by
  rw [lines_eq] at h
  obtain ⟨piece, hpiece, rfl⟩ := List.mem_map.1 h
  obtain ⟨xs, hxs, hsub, rfl | ⟨y, hy, rfl⟩⟩ := form_of_mem_cutAfter hpiece
  · rw [chomp_of_forall hxs] at hc
    exact ⟨by simpa using hxs c hc, hsub hc⟩
  · obtain rfl := beq_iff_eq.1 hy
    have hmem : c ∈ xs := by
      rw [chomp_concat] at hc
      unfold finishLine at hc
      split at hc
      · next cs hcs =>
        rw [← List.mem_reverse, hcs]
        exact List.mem_cons_of_mem _ (List.mem_reverse.1 hc)
      · rwa [List.reverse_reverse] at hc
    exact ⟨by simpa using hxs c hmem, hsub hmem⟩

/-- In a text without carriage returns lines end with neither of the two. -/
theorem dropLineEnds_of_mem_lines {text line : List Char} (hcr : '\r' ∉ text)
    (h : line ∈ lines text) : dropLineEnds line = line := by
  refine List.rdropWhile_eq_self_iff.2 fun hne hend => ?_
  obtain ⟨hlf, hmem⟩ := mem_of_mem_lines h (List.getLast_mem hne)
  simp only [isLineEnd, Bool.or_eq_true, decide_eq_true_eq] at hend
  rcases hend with hend | hend
  · exact hlf hend
  · exact hcr (hend ▸ hmem)

end Abacus.Text
