import Abacus.Proofs.Evaluation.NormalForm
import Abacus.Proofs.Token.Concatenation
import Abacus.Proofs.Tree.Denotation

/-!
# Sources put together

What a source is read as depends on the kinds and the texts of its tokens, not on their places. So
two sources may be put one after the other, and a source may be put between brackets: the cells are
those of the parts. A source is evaluated as one S-expression, and round brackets around it only add
a cell to stand for itself; curly ones keep its cells from being evaluated.

Headlines:
* `Denotes.map`: tokens with the same kinds and texts denote the same values.
* `readSource_append`: the cells of two sources put together are those of both.
* `readSource_enclose`, `evalSource_between_brackets`: what brackets around a source do.
* `readSource_append_blanks`: blanks at the end of a source change nothing, a fault included.
-/

namespace Abacus

namespace Tree

open Token (Apart Lexes)

/-! ## Places do not matter -/

/-- **Tokens with the same kinds and texts denote the same values.** -/
theorem Denotes.map {f : Token → Token} (hkind : ∀ t, (f t).kind = t.kind)
    (htext : ∀ t, (f t).text = t.text) {ts : List Token} {values : List Value}
    (h : Denotes ts values) : Denotes (ts.map f) values := by
  induction h with
  | nil => exact .nil
  | @number t ts values ht _ ih =>
    rw [List.map_cons, ← htext]
    exact .number ((hkind t).trans ht) ih
  | @symbol t ts values ht _ ih =>
    rw [List.map_cons, ← htext]
    exact .symbol ((hkind t).trans ht) ih
  | @group b o c inside ts cells values ho hc _ _ ihi ih =>
    rw [List.map_append, List.map_cons, List.map_cons]
    exact .group ((hkind o).trans ho) ((hkind c).trans hc) ihi ih

theorem Denotes.moveForward {ts : List Token} {values : List Value} (h : Denotes ts values)
    (k : Nat) : Denotes (ts.map (Token.moveForward k)) values :=
  Denotes.map (f := Token.moveForward k) (fun _ => rfl) (fun _ => rfl) h

/-- A source with a syntax tree is read as the cells that its tokens denote. -/
theorem exists_denotes_of_parse {source : String} {tree : ParseTree}
    (hl : source.utf8ByteSize ≤ Span.limit) (h : parse source = .ok tree) :
    ∃ tokens cells, Token.lex source = .ok tokens ∧ Denotes tokens cells ∧
      readSource source = .ok (.sexpr cells) := by
  obtain ⟨tokens, exprs, hlex, hd, -⟩ := parse_eq_ok_iff.1 h
  have hdenotes := denotes_of_derives hd (wellSpelled_of_lex hlex hl)
  exact ⟨tokens, _, hlex, hdenotes, (readSource_eq_ok_iff hl).2 ⟨tokens, _, hlex, hdenotes, rfl⟩⟩

/-! ## One source after the other -/

/-- **The cells of two sources put together are those of both**, unless a number reaches over the
seam. The tokens are those of both as well, the ones of the second source moved behind the first. -/
theorem readSource_append {s t : String} {tree tree' : ParseTree}
    (hl : (s ++ t).utf8ByteSize ≤ Span.limit) (hs : parse s = .ok tree) (ht : parse t = .ok tree')
    (hseam : Apart s.toList t.toList) :
    ∃ ts us cells more, Token.lex s = .ok ts ∧ Token.lex t = .ok us ∧
      readSource s = .ok (.sexpr cells) ∧ readSource t = .ok (.sexpr more) ∧
      Token.lex (s ++ t) = .ok (ts ++ us.map (Token.moveForward s.utf8ByteSize)) ∧
      readSource (s ++ t) = .ok (.sexpr (cells ++ more)) := by
  have hsize := hl
  rw [String.utf8ByteSize_append] at hsize
  have hls : s.utf8ByteSize ≤ Span.limit := by omega
  have hlt : t.utf8ByteSize ≤ Span.limit := by omega
  obtain ⟨ts, cells, hlexs, hds, hreads⟩ := exists_denotes_of_parse hls hs
  obtain ⟨us, more, hlext, hdt, hreadt⟩ := exists_denotes_of_parse hlt ht
  have hlex := Token.lex_append hlexs hlext hseam hl
  exact ⟨ts, us, cells, more, hlexs, hlext, hreads, hreadt, hlex,
    (readSource_eq_ok_iff hl).2 ⟨_, _, hlex, hds.append (hdt.moveForward _), rfl⟩⟩

/-- A minus sign at the end of a source stays a symbol if a blank stands before the number. -/
theorem readSource_append_minus :
    ("\x7b\x7d-" ++ " 4").utf8ByteSize ≤ Span.limit ∧ (∃ tree, parse "\x7b\x7d-" = .ok tree) ∧
      (∃ tree, parse " 4" = .ok tree) ∧ Apart "\x7b\x7d-".toList " 4".toList ∧
      Token.lex ("\x7b\x7d-" ++ " 4") = .ok
        [.ofChars (.opener .curly) 0 ['\x7b'], .ofChars (.closer .curly) 1 ['\x7d'],
          .ofChars .symbol 2 ['-'], .ofChars .number 4 ['4']] ∧
      readSource ("\x7b\x7d-" ++ " 4") = .ok (.sexpr [.qexpr [], .symbol "-", .number 4]) := by
  have hl : ("\x7b\x7d-" ++ " 4").utf8ByteSize ≤ Span.limit := by decide
  have hseam : Apart "\x7b\x7d-".toList " 4".toList := by
    rintro _ - - c cs ⟨⟩
    rfl
  have hs : Token.lex "\x7b\x7d-" = .ok [.ofChars (.opener .curly) 0 ['\x7b'],
      .ofChars (.closer .curly) 1 ['\x7d'], .ofChars .symbol 2 ['-']] := by
    simp [Token.lex, Token.lexFrom, Token.isBlank, Token.lexeme?, Token.Kind.ofChar?]
  have ht : Token.lex " 4" = .ok [.ofChars .number 1 ['4']] := by
    simp [Token.lex, Token.lexFrom, Token.isBlank, Token.lexeme?]
  have hds := @Denotes.group .curly (.ofChars (.opener .curly) 0 ['\x7b'])
    (.ofChars (.closer .curly) 1 ['\x7d']) [] [.ofChars .symbol 2 ['-']] _ _ rfl rfl .nil
    (.symbol rfl .nil)
  have hdt := @Denotes.number (.ofChars .number 1 ['4']) _ _ rfl .nil
  have hps := parse_eq_ok_iff.2 ⟨_, _, hs, .group rfl rfl .nil (.symbol rfl .nil), rfl⟩
  have hpt := parse_eq_ok_iff.2 ⟨_, _, ht, .number rfl .nil, rfl⟩
  obtain ⟨ts, us, cells, more, hs', ht', hreads, hreadt, hlex, hread⟩ :=
    readSource_append hl hps hpt hseam
  cases hs.symm.trans hs'
  cases ht.symm.trans ht'
  cases hreads.symm.trans ((readSource_eq_ok_iff (by decide)).2 ⟨_, _, hs, hds, rfl⟩)
  cases hreadt.symm.trans ((readSource_eq_ok_iff (by decide)).2 ⟨_, _, ht, hdt, rfl⟩)
  exact ⟨hl, ⟨_, hps⟩, ⟨_, hpt⟩, hseam, hlex, hread⟩

/-! ## Brackets around a source -/

/-- A text between brackets. -/
def enclose (b : Bracket) (s : String) : String :=
  .singleton b.opener ++ s ++ .singleton b.closer

theorem toList_enclose (b : Bracket) (s : String) :
    (enclose b s).toList = [b.opener] ++ (s.toList ++ [b.closer]) := by
  simp [enclose]

theorem utf8ByteSize_enclose (b : Bracket) (s : String) :
    (enclose b s).utf8ByteSize = s.utf8ByteSize + 2 := by
  have hsizes : b.opener.utf8Size = 1 ∧ b.closer.utf8Size = 1 := by cases b <;> decide
  rw [enclose, String.utf8ByteSize_append, String.utf8ByteSize_append,
    String.utf8ByteSize_singleton, String.utf8ByteSize_singleton, hsizes.1, hsizes.2]
  omega

/-- The tokens of a source between brackets are those of the source between two more. -/
theorem lex_enclose {s : String} {ts : List Token} (b : Bracket)
    (hl : s.utf8ByteSize + 2 ≤ Span.limit) (h : Token.lex s = .ok ts) :
    ∃ o c, o.kind = .opener b ∧ c.kind = .closer b ∧
      Token.lex (enclose b s) = .ok (o :: ts.map (Token.moveForward 1) ++ [c]) := by
  have hsize := Token.utf8ByteSize_of_lex h
  have hopens : Token.Kind.Spells (.opener b) [b.opener] := rfl
  have hcloses : Token.Kind.Spells (.closer b) [b.closer] := rfl
  have hinside := (Token.lex_eq_ok_iff.1 h).moveForward (k := 1) (by omega)
  have hclose : Lexes (1 + s.toList.length) [b.closer]
      [.ofChars (.closer b) (1 + s.toList.length) [b.closer]] := .prepend hcloses nofun .nil
  have hseam : Apart s.toList [b.closer] :=
    Token.apart_of_noDigitNext (Token.noDigitNext_cons (by cases b <;> rfl) [])
  have hall := Lexes.prepend hopens nofun (hinside.append hclose hseam)
  rw [← toList_enclose] at hall
  exact ⟨.ofChars (.opener b) 0 [b.opener], .ofChars (.closer b) (1 + s.toList.length) [b.closer],
    rfl, rfl, Token.lex_eq_ok_iff.2 hall⟩

/-- **A source between brackets is read as the list of its cells.** -/
theorem readSource_enclose {s : String} {ts : List Token} {cells : List Value} (b : Bracket)
    (hl : s.utf8ByteSize + 2 ≤ Span.limit) (hlex : Token.lex s = .ok ts) (h : Denotes ts cells) :
    readSource (enclose b s) = .ok (.sexpr [.ofBracket b cells]) := by
  obtain ⟨o, c, ho, hc, henclosed⟩ := lex_enclose b hl hlex
  rw [← utf8ByteSize_enclose b] at hl
  exact (readSource_eq_ok_iff hl).2
    ⟨_, _, henclosed, .group ho hc (h.moveForward 1) .nil, rfl⟩

/-! ## Blanks at the end -/

/-- The size of a source only shows in the places of its tree. -/
theorem read_ofExprs_congr (size size' : Nat) (exprs : List ParseTree) :
    (ofExprs size exprs).read = (ofExprs size' exprs).read := by
  have hrole : ∀ n, Tag.role (ofExprs n exprs).tag = .list .round := fun _ => Tag.role_root
  rw [read_of_role_list (hrole size), read_of_role_list (hrole size')]
  simp [ofExprs, List.filter_append, isBookkeeping_anchor]

/-- **Blanks at the end of a source change nothing**: neither what is read nor a fault. -/
theorem readSource_append_blanks (s : String) {blanks : List Char}
    (h : ∀ c ∈ blanks, Token.isBlank c = true) :
    readSource (s ++ .ofList blanks) = readSource s := by
  unfold readSource parse
  rw [Token.lex_append_blanks s h]
  cases Token.lex s with
  | error e => rfl
  | ok tokens =>
    dsimp only
    cases build tokens [] [] with
    | error e => rfl
    | ok exprs => exact congrArg Except.ok (read_ofExprs_congr _ _ exprs)

end Tree

/-! ## Evaluation -/

theorem evalSource_of_readSource {s : String} {v : Value} (h : Tree.readSource s = .ok v) :
    evalSource s = .ok (evaluate v) := by
  rw [evalSource, h]

/-- **Brackets around a whole source.** Round ones make no difference to what it is evaluated to, be
it an error or not; between curly ones it stands for the list of its cells, none of which is
evaluated. -/
theorem evalSource_between_brackets {s : String} {tree : ParseTree}
    (hl : s.utf8ByteSize + 2 ≤ Span.limit) (h : Tree.parse s = .ok tree) :
    ∃ cells, Tree.readSource s = .ok (.sexpr cells) ∧
      evalSource s = .ok (evaluate (.sexpr cells)) ∧
      evalSource ("(" ++ s ++ ")") = evalSource s ∧
      evalSource ("\x7b" ++ s ++ "\x7d") = .ok (.qexpr cells) := by
  have hls : s.utf8ByteSize ≤ Span.limit := by omega
  obtain ⟨tokens, cells, hlex, hdenotes, hread⟩ := Tree.exists_denotes_of_parse hls h
  have hround := evalSource_of_readSource (Tree.readSource_enclose .round hl hlex hdenotes)
  have hcurly := evalSource_of_readSource (Tree.readSource_enclose .curly hl hlex hdenotes)
  rw [evaluate_singleton] at hround hcurly
  refine ⟨cells, hread, evalSource_of_readSource hread, ?_, ?_⟩
  · rw [evalSource_of_readSource hread]
    exact hround
  · exact hcurly.trans (congrArg Except.ok (evaluate_qexpr cells))

/-- A division by zero fails in the same way with and without brackets, and stands unevaluated
between curly ones. -/
theorem evalSource_between_brackets_division :
    "/ 1 0".utf8ByteSize + 2 ≤ Span.limit ∧ (∃ tree, Tree.parse "/ 1 0" = .ok tree) ∧
      evalSource ("(" ++ "/ 1 0" ++ ")") = .ok (.error "Division By Zero") ∧
      evalSource ("\x7b" ++ "/ 1 0" ++ "\x7d") =
        .ok (.qexpr [.symbol "/", .number 1, .number 0]) := by
  have hl : "/ 1 0".utf8ByteSize + 2 ≤ Span.limit := by decide
  have hlex : Token.lex "/ 1 0" = .ok [.ofChars .symbol 0 ['/'], .ofChars .number 2 ['1'],
      .ofChars .number 4 ['0']] := by
    simp [Token.lex, Token.lexFrom, Token.isBlank, Token.lexeme?, Token.Kind.ofChar?]
  have hparse := Tree.parse_eq_ok_iff.2
    ⟨_, _, hlex, .symbol rfl (.number rfl (.number rfl .nil)), rfl⟩
  have hdenotes := @Tree.Denotes.symbol (.ofChars .symbol 0 ['/'])
    [.ofChars .number 2 ['1'], .ofChars .number 4 ['0']] _ rfl (.number rfl (.number rfl .nil))
  obtain ⟨cells, hread, heval, hround, hcurly⟩ := evalSource_between_brackets hl hparse
  cases hread.symm.trans
    ((Tree.readSource_eq_ok_iff (by decide)).2 ⟨_, _, hlex, hdenotes, rfl⟩)
  refine ⟨hl, ⟨_, hparse⟩, ?_, hcurly⟩
  rw [hround, heval, evaluate_sexpr]
  change Except.ok (reduceCells [evaluate (.symbol "/"), evaluate (.number 1),
    evaluate (.number 0)]) = _
  rw [evaluate_symbol, evaluate_number, evaluate_number]
  rfl

end Abacus
