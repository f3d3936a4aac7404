import Abacus.Proofs.Number.Decimal
import Abacus.Proofs.Tree.Denotation
import Abacus.Value.Print

/-!
# Reading printed values

A printed value is read back as itself if it is made of numbers, operator symbols and lists. The
text of an error has letters in it, which no source has, and a symbol with another name is printed
as something that is read in another way or not at all.

Headlines:
* `readsAs_print`: the text of a writable value is read as that value wherever it stands.
* `symbol_of_denotes`: only operator symbols are ever read.
* `readSource_print_iff`: the text of a value is read back as the value exactly if the value has no
  errors and no symbols other than operators.
-/

namespace Abacus

/-! ## Values at any depth -/

/-- `Within w v` says that `w` occurs in `v` at some depth. -/
inductive Value.Within (w : Value) : Value → Prop
  | refl : Within w w
  | sexpr {c : Value} {cells : List Value} (hc : c ∈ cells) (h : Within w c) :
      Within w (.sexpr cells)
  | qexpr {c : Value} {cells : List Value} (hc : c ∈ cells) (h : Within w c) :
      Within w (.qexpr cells)

@[simp]
theorem Value.within_number_iff {w : Value} {n : Number} : w.Within (.number n) ↔ w = .number n :=
  ⟨fun h => by cases h; rfl, fun h => h ▸ .refl⟩

@[simp]
theorem Value.within_symbol_iff {w : Value} {name : String} :
    w.Within (.symbol name) ↔ w = .symbol name :=
  ⟨fun h => by cases h; rfl, fun h => h ▸ .refl⟩

theorem Value.within_ofBracket_iff {w : Value} (b : Bracket) {cells : List Value} :
    w.Within (.ofBracket b cells) ↔ w = .ofBracket b cells ∨ ∃ c ∈ cells, w.Within c := by
  constructor
  · intro h
    cases b with
    | round =>
      cases h with
      | refl => exact .inl rfl
      | sexpr hc h => exact .inr ⟨_, hc, h⟩
    | curly =>
      cases h with
      | refl => exact .inl rfl
      | qexpr hc h => exact .inr ⟨_, hc, h⟩
  · rintro (rfl | ⟨c, hc, h⟩)
    · exact .refl
    · cases b with
      | round => exact .sexpr hc h
      | curly => exact .qexpr hc h

@[simp]
theorem Value.within_sexpr_iff {w : Value} {cells : List Value} :
    w.Within (.sexpr cells) ↔ w = .sexpr cells ∨ ∃ c ∈ cells, w.Within c :=
  within_ofBracket_iff .round

@[simp]
theorem Value.within_qexpr_iff {w : Value} {cells : List Value} :
    w.Within (.qexpr cells) ↔ w = .qexpr cells ∨ ∃ c ∈ cells, w.Within c :=
  within_ofBracket_iff .curly

theorem Value.within_ofBracket {w c : Value} {cells : List Value} (b : Bracket) (hc : c ∈ cells)
    (h : w.Within c) : w.Within (.ofBracket b cells) :=
  (within_ofBracket_iff b).2 (.inr ⟨c, hc, h⟩)

/-- A value without errors whose symbols are all operators, at any depth. -/
structure Value.Writable (v : Value) : Prop where
  no_error : ∀ message, ¬(Value.error message).Within v
  symbol : ∀ name, (Value.symbol name).Within v → name ∈ ["+", "-", "*", "/"]

theorem Value.Writable.cell {b : Bracket} {cells : List Value} {c : Value}
    (h : (Value.ofBracket b cells).Writable) (hc : c ∈ cells) : c.Writable where
  no_error message hw := h.no_error message (within_ofBracket b hc hw)
  symbol name hw := h.symbol name (within_ofBracket b hc hw)

theorem exists_symbol_of_mem {name : String} (h : name ∈ ["+", "-", "*", "/"]) :
    ∃ op : Operator, name = op.symbol := by
  simp only [List.mem_cons, List.not_mem_nil, or_false] at h
  rcases h with rfl | rfl | rfl | rfl
  · exact ⟨.add, rfl⟩
  · exact ⟨.sub, rfl⟩
  · exact ⟨.mul, rfl⟩
  · exact ⟨.div, rfl⟩

/-! ## Texts that are read as given values -/

open Token Abacus.Tree

/-- The characters are read as the given values wherever they stand, if no digit comes next. -/
def ReadsAs (chars : List Char) (values : List Value) : Prop :=
  ∀ offset, offset + chars.length ≤ Span.limit → ∃ ts, Denotes ts values ∧
    ∀ rest us, NoDigitNext rest → Lexes (offset + chars.length) rest us →
      Lexes offset (chars ++ rest) (ts ++ us)

theorem readsAs_nil : ReadsAs [] [] := fun _ _ => ⟨[], .nil, fun _ _ _ h => h⟩

/-- A single token is read as what it denotes. -/
theorem readsAs_token {kind : Kind} {chars : List Char} {v : Value} (hs : kind.Spells chars)
    (hd : ∀ t : Token, t.kind = kind → t.text.toList = chars → Denotes [t] [v]) :
    ReadsAs chars [v] := by
  intro offset hl
  exact ⟨[ofChars kind offset chars], hd _ rfl (toList_text_ofChars hl),
    fun rest us hr h => .prepend hs (fun _ => hr) h⟩

theorem readsAs_number (n : Number) : ReadsAs n.toText.toList [.number n] := by
  have hs : Kind.number.Spells n.toText.toList := by
    rw [Number.toList_toText]
    split
    · exact ⟨_, Nat.toDigits_ne_nil, fun _ => Number.isDigit_of_mem_toDigits, .inl rfl⟩
    · exact ⟨_, Nat.toDigits_ne_nil, fun _ => Number.isDigit_of_mem_toDigits, .inr rfl⟩
  refine readsAs_token hs fun t hk ht => ?_
  have hread : readNumber t.text = .number n := by
    rw [readNumber, String.toList_inj.1 ht, Number.ofText?_toText]
  rw [← hread]
  exact .number hk .nil

theorem readsAs_symbol (op : Operator) : ReadsAs op.symbol.toList [.symbol op.symbol] := by
  have hs : Kind.symbol.Spells op.symbol.toList := ⟨op, rfl⟩
  refine readsAs_token hs fun t hk ht => ?_
  rw [← String.toList_inj.1 ht]
  exact .symbol hk .nil

/-- Two texts with a space between them are read one after the other. -/
theorem ReadsAs.separated {xs ys : List Char} {values more : List Value} (hx : ReadsAs xs values)
    (hy : ReadsAs ys more) : ReadsAs (xs ++ ' ' :: ys) (values ++ more) := by
  intro offset hl
  rw [List.length_append, List.length_cons] at hl
  obtain ⟨ts, hts, hlex⟩ := hx offset (by omega)
  obtain ⟨us, hus, hlex'⟩ := hy (offset + xs.length + 1) (by omega)
  refine ⟨ts ++ us, hts.append hus, fun rest vs hr h => ?_⟩
  rw [List.append_assoc, List.append_assoc]
  refine hlex _ _ (noDigitNext_cons rfl _) (.blank rfl (hlex' rest vs hr ?_))
  rw [List.length_append, List.length_cons] at h
  rw [Nat.add_assoc offset, Nat.add_assoc offset, Nat.add_assoc xs.length, Nat.add_comm 1]
  exact h

/-- A text between brackets is read as a list. -/
theorem ReadsAs.group {xs : List Char} {values : List Value} (b : Bracket) (h : ReadsAs xs values) :
    ReadsAs (b.opener :: xs ++ [b.closer]) [.ofBracket b values] := by
  intro offset hl
  rw [List.length_append, List.length_cons, List.length_singleton] at hl
  obtain ⟨ts, hts, hlex⟩ := h (offset + 1) (by omega)
  refine ⟨ofChars (.opener b) offset [b.opener] ::
      ts ++ [ofChars (.closer b) (offset + 1 + xs.length) [b.closer]],
    .group rfl rfl hts .nil, fun rest us hr h' => ?_⟩
  have hopen : (Kind.opener b).Spells [b.opener] := rfl
  have hclose : (Kind.closer b).Spells [b.closer] := rfl
  have hdigit : b.closer.isDigit = false := by cases b <;> rfl
  rw [List.append_assoc, List.append_assoc, List.cons_append, List.cons_append]
  refine .prepend hopen nofun (hlex _ _ (noDigitNext_cons hdigit _) ?_)
  refine .prepend hclose nofun ?_
  rw [List.length_append, List.length_cons, List.length_singleton] at h'
  rw [List.length_singleton, Nat.add_assoc (offset + 1), Nat.add_assoc offset, Nat.add_comm 1]
  exact h'

/-- Texts with a space between any two are read one after the other. -/
theorem readsAs_intercalate {cells : List Value} (h : ∀ c ∈ cells, ReadsAs c.print.toList [c]) :
    ReadsAs (" ".intercalate (cells.map Value.print)).toList cells := by
  induction cells with
  | nil => exact readsAs_nil
  | cons c cs ih =>
    obtain ⟨hc, hcs⟩ := List.forall_mem_cons.1 h
    cases cs with
    | nil =>
      rw [List.map_singleton, String.intercalate_singleton]
      exact hc
    | cons d ds =>
      rw [List.map_cons, List.map_cons, String.intercalate_cons_cons, String.toList_append,
        String.toList_append, List.append_assoc]
      exact hc.separated (ih hcs)

theorem toList_print_ofBracket (b : Bracket) (cells : List Value) :
    (Value.ofBracket b cells).print.toList =
      b.opener :: (" ".intercalate (cells.map Value.print)).toList ++ [b.closer] := by
  cases b with
  | round =>
    rw [Value.ofBracket, Value.print_sexpr, String.toList_append, String.toList_append]
    rfl
  | curly =>
    rw [Value.ofBracket, Value.print_qexpr, String.toList_append, String.toList_append]
    rfl

/-- **The text of a writable value is read as that value.** -/
theorem readsAs_print {v : Value} (h : v.Writable) : ReadsAs v.print.toList [v] := by
  have hlist : ∀ (b : Bracket) (cells : List Value), (Value.ofBracket b cells).Writable →
      (∀ c ∈ cells, c.Writable → ReadsAs c.print.toList [c]) →
      ReadsAs (Value.ofBracket b cells).print.toList [.ofBracket b cells] := by
    intro b cells hw ih
    rw [toList_print_ofBracket]
    exact .group b (readsAs_intercalate fun c hc => ih c hc (hw.cell hc))
  induction v with
  | number n =>
    rw [Value.print_number]
    exact readsAs_number n
  | error message => exact absurd .refl (h.no_error message)
  | symbol name =>
    obtain ⟨op, rfl⟩ := exists_symbol_of_mem (h.symbol name .refl)
    rw [Value.print_symbol]
    exact readsAs_symbol op
  | sexpr cells ih => exact hlist .round cells h ih
  | qexpr cells ih => exact hlist .curly cells h ih

/-! ## What is never read back -/

/-- What holds of numerals as they are read, of operator symbols and of lists holds of everything
that is read. -/
theorem forall_within_of_denotes (P : Value → Prop) (number : ∀ text, P (readNumber text))
    (symbol : ∀ op : Operator, P (.symbol op.symbol)) (list : ∀ b cells, P (.ofBracket b cells))
    {ts : List Token} {values : List Value} (h : Denotes ts values)
    (hs : ∀ t ∈ ts, WellSpelled t) {v w : Value} (hv : v ∈ values) (hw : w.Within v) : P w := by
  induction h generalizing v with
  | nil => cases hv
  | @number t ts values ht _ ih =>
    rcases List.mem_cons.1 hv with rfl | hv
    · have hw : w = readNumber t.text := by
        unfold readNumber at hw ⊢
        split at hw <;> cases hw <;> rfl
      exact hw ▸ number t.text
    · exact ih (List.forall_mem_cons.1 hs).2 hv hw
  | @symbol t ts values ht _ ih =>
    obtain ⟨hst, hss⟩ := List.forall_mem_cons.1 hs
    rcases List.mem_cons.1 hv with rfl | hv
    · cases hw
      rw [WellSpelled, ht] at hst
      obtain ⟨op, hop⟩ := hst
      rw [String.toList_inj.1 hop]
      exact symbol op
    · exact ih hss hv hw
  | @group b o c inside ts cells values ho hc _ _ ihi ih =>
    obtain ⟨-, hsi, -, hss⟩ := forall_mem_group.1 hs
    rcases List.mem_cons.1 hv with rfl | hv
    · rcases (Value.within_ofBracket_iff b).1 hw with rfl | ⟨c, hc, hw⟩
      · exact list b cells
      · exact ihi hsi hc hw
    · exact ih hss hv hw

/-- **Only operator symbols are read.** -/
theorem symbol_of_denotes {ts : List Token} {values : List Value} (h : Denotes ts values)
    (hs : ∀ t ∈ ts, WellSpelled t) {v : Value} (hv : v ∈ values) {name : String}
    (hw : (Value.symbol name).Within v) : name ∈ ["+", "-", "*", "/"] := by
  refine forall_within_of_denotes (fun w => ∀ name, w = .symbol name → name ∈ ["+", "-", "*", "/"])
    (fun text name he => ?_) (fun op name he => ?_) (fun b cells name he => ?_) h hs hv hw name rfl
  · unfold readNumber at he
    split at he <;> cases he
  · cases he
    cases op <;> decide
  · cases b <;> cases he

/-- **The only error that is read** is the one in place of a number out of range. -/
theorem error_of_denotes {ts : List Token} {values : List Value} (h : Denotes ts values)
    (hs : ∀ t ∈ ts, WellSpelled t) {v : Value} (hv : v ∈ values) {message : String}
    (hw : (Value.error message).Within v) : message = invalidNumber := by
  refine forall_within_of_denotes (fun w => ∀ message, w = .error message → message = invalidNumber)
    (fun text message he => ?_) (fun op message he => ?_) (fun b cells message he => ?_)
    h hs hv hw message rfl
  · unfold readNumber at he
    split at he <;> cases he
    rfl
  · cases he
  · cases b <;> cases he

/-- The text of a cell stands in the text of its list. -/
theorem mem_print_ofBracket (b : Bracket) {cells : List Value} {c : Value} (hc : c ∈ cells)
    {x : Char} (hx : x ∈ c.print.toList) : x ∈ (Value.ofBracket b cells).print.toList := by
  have h : ∀ texts : List String, ∀ t ∈ texts, x ∈ t.toList →
      x ∈ (" ".intercalate texts).toList := by
    intro texts
    induction texts with
    | nil => intro t ht; cases ht
    | cons u us ih =>
      intro t ht hx
      cases us with
      | nil =>
        rw [String.intercalate_singleton]
        rw [List.mem_singleton.1 ht] at hx
        exact hx
      | cons w ws =>
        rw [String.intercalate_cons_cons, String.toList_append, String.toList_append]
        rcases List.mem_cons.1 ht with rfl | ht
        · exact List.mem_append_left _ (List.mem_append_left _ hx)
        · exact List.mem_append_right _ (ih t ht hx)
  rw [toList_print_ofBracket]
  exact List.mem_append_left _
    (List.mem_cons_of_mem _ (h _ c.print (List.mem_map_of_mem hc) hx))

/-- The mark of an error is in the text of every value around it. -/
theorem mem_print_of_error {message : String} {v : Value} (h : (Value.error message).Within v) :
    'E' ∈ v.print.toList := by
  induction h with
  | refl =>
    rw [Value.print_error, String.toList_append]
    exact List.mem_append_left _ (by decide)
  | sexpr hc _ ih => exact mem_print_ofBracket .round hc ih
  | qexpr hc _ ih => exact mem_print_ofBracket .curly hc ih

/-! ## The round trip -/

theorem readSource_print {v : Value} (hl : v.print.utf8ByteSize ≤ Span.limit) (h : v.Writable) :
    readSource v.print = .ok (.sexpr [v]) := by
  have hlength := length_le_utf8ByteSize v.print
  obtain ⟨ts, hts, hlex⟩ := readsAs_print h 0 (by omega)
  have hlex := hlex [] [] (fun c cs he => by cases he) .nil
  rw [List.append_nil, List.append_nil] at hlex
  exact (readSource_eq_ok_iff hl).2 ⟨ts, [v], lex_eq_ok_iff.2 hlex, hts, rfl⟩

/-- A letter in the text of an error keeps it from being a source. -/
theorem no_error_of_lexes {v : Value} {ts : List Token} (h : Lexes 0 v.print.toList ts)
    (message : String) : ¬(Value.error message).Within v := by
  intro hw
  have hE : isLexical 'E' = true := h.isLexical 'E' (mem_print_of_error hw)
  exact absurd hE (by decide)

theorem writable_of_readSource {v : Value} (hl : v.print.utf8ByteSize ≤ Span.limit)
    (h : readSource v.print = .ok (.sexpr [v])) : v.Writable := by
  obtain ⟨ts, values, hlex, hd, he⟩ := (readSource_eq_ok_iff hl).1 h
  cases he
  exact {
    no_error := no_error_of_lexes (lex_eq_ok_iff.1 hlex)
    symbol := fun _ hw =>
      symbol_of_denotes hd (wellSpelled_of_lex hlex hl) List.mem_cons_self hw }

/-- **Printing and reading agree exactly on the values without errors and odd symbols.** -/
theorem readSource_print_iff {v : Value} (hl : v.print.utf8ByteSize ≤ Span.limit) :
    readSource v.print = .ok (.sexpr [v]) ↔
      (∀ message, ¬(Value.error message).Within v) ∧
        ∀ name, (Value.symbol name).Within v → name ∈ ["+", "-", "*", "/"] := by
  constructor
  · intro h
    have hw := writable_of_readSource hl h
    exact ⟨hw.no_error, hw.symbol⟩
  · rintro ⟨herror, hsymbol⟩
    exact readSource_print hl ⟨herror, hsymbol⟩

/-- An operator and a negative number are read back, each with its own `-`. -/
theorem readSource_print_signed :
    (Value.sexpr [.symbol "-", .qexpr [.number (-1)]]).print.utf8ByteSize ≤ Span.limit ∧
      readSource (Value.sexpr [.symbol "-", .qexpr [.number (-1)]]).print =
        .ok (.sexpr [.sexpr [.symbol "-", .qexpr [.number (-1)]]]) := by
  have hprint : (Value.sexpr [.symbol "-", .qexpr [.number (-1)]]).print = "(- \x7b-1\x7d)" := by
    simp only [Value.print_sexpr, Value.print_qexpr, Value.print_symbol, Value.print_number,
      List.map_cons, List.map_nil]
    decide
  have hl : (Value.sexpr [.symbol "-", .qexpr [.number (-1)]]).print.utf8ByteSize ≤
      Span.limit := by
    rw [hprint]
    decide
  refine ⟨hl, (readSource_print_iff hl).2 ⟨fun message h => ?_, fun name h => ?_⟩⟩
  · simp at h
  · have hname : name = "-" := by simpa using h
    rw [hname]
    decide

end Abacus
