import Abacus.Proofs.Tree.Shape

/-!
# Slices of a source

Every expression of a source stands on its own, at whatever depth: the text at its span is a source
with this one expression, and only the places differ, all by the same distance. So expressions may
be cut out of a source and read, evaluated or shown by themselves.

The tokens of an expression are a run of the tokens of the source. A run is what its characters are
cut into, moved by any distance, and what tokens derive does not depend on their places.

Headlines:
* `read_mapInfo`: what a tree is read as does not depend on places.
* `Derives.moveBack`: moved tokens derive the moved trees.
* `parse_slice`: the text at the span of an expression parses to this expression, moved to the start.
-/

namespace Abacus.Tree

/-! ## Other information at the nodes -/

section MapInfo

variable {ι κ : Type}

/-- A tree with other information at its nodes. -/
def mapInfo (f : ι → κ) : Tree ι → Tree κ
  | ⟨tag, contents, info, children⟩ => ⟨tag, contents, f info, children.map (mapInfo f)⟩

theorem mapInfo_eq (f : ι → κ) (t : Tree ι) :
    t.mapInfo f = ⟨t.tag, t.contents, f t.info, t.children.map (mapInfo f)⟩ := by
  cases t
  rw [mapInfo]

theorem isBookkeeping_mapInfo (f : ι → κ) (t : Tree ι) :
    (t.mapInfo f).isBookkeeping = t.isBookkeeping := by
  rw [mapInfo_eq]
  rfl

theorem kept_mapInfo (f : ι → κ) (t : Tree ι) : (t.mapInfo f).kept = t.kept.map (mapInfo f) := by
  rw [mapInfo_eq, kept, kept]
  dsimp only
  split
  · rw [List.filter_map]
    simp only [Function.comp_def, isBookkeeping_mapInfo]
  · rfl

/-- **What a tree is read as does not depend on the information at its nodes.** -/
theorem read_mapInfo (f : ι → κ) (t : Tree ι) : (t.mapInfo f).read = t.read := by
  induction t with
  | node t ih =>
    have hcells : (t.kept.map (mapInfo f)).map read = t.kept.map read := by
      rw [List.map_map]
      exact List.map_congr_left fun c hc => ih c (mem_children_of_mem_kept hc)
    rw [read_eq, kept_mapInfo, hcells, mapInfo_eq, read_eq t]
    rfl

end MapInfo

/-! ## Moved trees -/

/-- A tree moved towards the start of the source. -/
def moveBack (distance : UInt32) (t : ParseTree) : ParseTree :=
  t.mapInfo fun s => s.moveBack distance

theorem moveBack_leaf (k : UInt32) (tag : String) (t : Token) :
    (leaf tag t).moveBack k = leaf tag (t.moveBack k) := by
  rw [moveBack, mapInfo_eq]
  rfl

theorem moveBack_ofGroup {k : UInt32} {b : Bracket} {o c : Token} {items : List ParseTree}
    (ho : k ≤ o.span.start ∧ k ≤ o.span.stop) (hc : k ≤ c.span.start ∧ k ≤ c.span.stop) :
    (ofGroup b o c items).moveBack k =
      ofGroup b (o.moveBack k) (c.moveBack k) (items.map (moveBack k)) := by
  have hchildren : (ofGroup b o c items).children.map (moveBack k) =
      leaf Tag.char (o.moveBack k) :: items.map (moveBack k) ++ [leaf Tag.char (c.moveBack k)] := by
    rw [ofGroup, List.map_append, List.map_cons, List.map_singleton, moveBack_leaf, moveBack_leaf]
  rw [moveBack, mapInfo_eq]
  change Tree.mk _ _ _ ((ofGroup b o c items).children.map (moveBack k)) = _
  rw [hchildren, ofGroup, ofGroup, Span.moveBack_merge ho hc]
  rfl

/-- **Moved tokens derive the moved trees.** -/
theorem Derives.moveBack {k : UInt32} {ts : List Token} {exprs : List ParseTree}
    (h : Derives ts exprs) (hk : ∀ t ∈ ts, k ≤ t.span.start ∧ k ≤ t.span.stop) :
    Derives (ts.map (Token.moveBack k)) (exprs.map (Tree.moveBack k)) := by
  induction h with
  | nil => exact .nil
  | @number t ts exprs ht _ ih =>
    rw [List.map_cons, List.map_cons, moveBack_leaf]
    exact .number ht (ih (List.forall_mem_cons.1 hk).2)
  | @symbol t ts exprs ht _ ih =>
    rw [List.map_cons, List.map_cons, moveBack_leaf]
    exact .symbol ht (ih (List.forall_mem_cons.1 hk).2)
  | @group b o c inside ts items exprs ho hc _ _ ihi ih =>
    obtain ⟨hko, hki, hkc, hks⟩ := forall_mem_group.1 hk
    rw [List.map_append, List.map_cons, List.map_cons, List.map_cons, moveBack_ofGroup hko hkc]
    exact .group ho hc (ihi hki) (ih hks)

/-! ## Slices -/

/-- The tokens of an expression are what the characters at its span are cut into. -/
theorem exists_slice_of_derives {chars : List Char} {tokens us : List Token} {n : ParseTree}
    (hlex : Token.Lexes 0 chars tokens) (hl : chars.length ≤ Span.limit) (hus : us <:+: tokens)
    (h : Derives us [n]) :
    ∃ pre mid post, chars = pre ++ mid ++ post ∧ Token.Lexes pre.length mid us ∧
      n.info = .ofRange pre.length (pre.length + mid.length) := by
  have hne : us ≠ [] := by
    rintro rfl
    cases h
  have ha := (hlex.arranged (by omega)).sublist hus.sublist
  obtain ⟨before, after, rfl⟩ := hus
  obtain ⟨pre, mid, post, hchars, hmid, hcovers⟩ := hlex.exists_segment hne
  obtain ⟨first, hfirst, last, hlast, hinfo⟩ := info_of_derives h ha
  rw [Nat.zero_add] at hmid hcovers
  refine ⟨pre, mid, post, hchars, hmid, ?_⟩
  rw [hinfo, hcovers.first first hfirst, hcovers.last last hlast]
  rfl

/-- What starts at a place is not before it. -/
theorem le_of_lexes {k : Nat} {chars : List Char} {us : List Token}
    (hlex : Token.Lexes k chars us) (hl : k + chars.length ≤ Span.limit) :
    ∀ t ∈ us, UInt32.ofNatClamp k ≤ t.span.start ∧ UInt32.ofNatClamp k ≤ t.span.stop := by
  intro t ht
  obtain ⟨hstart, hlt, -⟩ := hlex.bounds hl ht
  rw [UInt32.le_iff_toNat_le, UInt32.le_iff_toNat_le, Span.toNat_clamp]
  omega

/-- No node of derived trees is before all tokens. -/
theorem le_info_of_derives {k : UInt32} {ts : List Token} {exprs : List ParseTree}
    (h : Derives ts exprs) (hk : ∀ t ∈ ts, k ≤ t.span.start ∧ k ≤ t.span.stop) :
    ∀ x ∈ exprs, ∀ m ∈ x.nodes, k ≤ m.info.start ∧ k ≤ m.info.stop := by
  refine forall_info_of_derives (P := fun s => k ≤ s.start ∧ k ≤ s.stop) (fun s t hs ht => ?_) h hk
  simp only [UInt32.le_iff_toNat_le] at hs ht ⊢
  rw [Span.toNat_start_merge, Span.toNat_stop_merge]
  omega

/-- The characters of an expression, wherever they stood, are a source with this expression. -/
theorem exists_lex_of_lexes {k : Nat} {chars : List Char} {us : List Token} {n : ParseTree}
    (hlex : Token.Lexes k chars us) (hl : k + chars.length ≤ Span.limit) (h : Derives us [n]) :
    ∃ ts, Token.lex (.ofList chars) = .ok ts ∧ Derives ts [n.moveBack (.ofNatClamp k)] := by
  refine ⟨us.map (Token.moveBack (.ofNatClamp k)), ?_, h.moveBack (le_of_lexes hlex hl)⟩
  rw [Token.lex_eq_ok_iff, String.toList_ofList]
  exact Token.Lexes.moveBack hlex hl

/-- The expressions of a source, at any depth, are derived by runs of its tokens. -/
theorem exists_run_of_mem_nodes_ofExprs {size : Nat} {ts : List Token} {exprs : List ParseTree}
    (h : Derives ts exprs) :
    ∀ n ∈ (ofExprs size exprs).nodes, n.tag ∈ exprTags → ∃ us, us <:+: ts ∧ Derives us [n] := by
  have htags : Tag.root ∉ exprTags ∧ Tag.regex ∉ exprTags ∧ Tag.char ∉ exprTags := by decide
  obtain ⟨hroot, hregex, hchar⟩ := htags
  refine forall_mem_nodes_ofExprs (fun ht => absurd ht hroot) (fun _ ht => absurd ht hregex) ?_
  intro x hx n hn ht
  rcases exists_run_of_mem_nodes h hx hn with ⟨t, -, rfl⟩ | hrun
  · exact absurd ht hchar
  · exact hrun

/-- **Every expression is the only one of the text at its span**, with all places moved back by the
start of the span. -/
theorem parse_slice {source : String} {tree : ParseTree} (hl : source.utf8ByteSize ≤ Span.limit)
    (h : parse source = .ok tree) {n : ParseTree} (hn : n ∈ tree.nodes) (htag : n.tag ∈ exprTags) :
    (∀ m ∈ n.nodes, n.info.start ≤ m.info.start ∧ n.info.start ≤ m.info.stop) ∧
      ∃ slice, n.info.Marks source slice ∧ (∀ other, n.info.Marks source other → other = slice) ∧
        parse slice = .ok (ofExprs slice.utf8ByteSize [n.moveBack n.info.start]) ∧
        readSource slice = .ok (.sexpr [n.read]) := by
  obtain ⟨tokens, exprs, hlex, hd, rfl⟩ := parse_eq_ok_iff.1 h
  have hsize := Token.utf8ByteSize_of_lex hlex
  have hlexes := Token.lex_eq_ok_iff.1 hlex
  obtain ⟨us, hus, hn⟩ := exists_run_of_mem_nodes_ofExprs hd n hn htag
  -- the run is cut out of the source, at the span of the node
  obtain ⟨pre, mid, post, hsource, hmid, hinfo⟩ :=
    exists_slice_of_derives hlexes (by omega) hus hn
  have hmarks : n.info.Marks source (.ofList mid) := hinfo ▸ Token.marks_ofRange hlex hl hsource
  have hmidSize : (String.ofList mid).utf8ByteSize = mid.length :=
    hmid.utf8ByteSize_ofList (List.Subset.refl mid)
  rw [hsource, List.length_append, List.length_append] at hsize
  have hstart : n.info.start = .ofNatClamp pre.length := by
    rw [hinfo]
    rfl
  -- and read by itself it gives the same tokens, moved to the start
  obtain ⟨ts, hslice, hmoved⟩ := exists_lex_of_lexes hmid (by omega) hn
  have hparse := parse_eq_ok_iff.2 ⟨ts, _, hslice, hmoved, rfl⟩
  have hread := read_ofExprs hmoved (wellSpelled_of_lex hslice (by omega))
    (String.ofList mid).utf8ByteSize
  rw [List.map_singleton, moveBack, read_mapInfo] at hread
  rw [hstart]
  refine ⟨le_info_of_derives hn (le_of_lexes hmid (by omega)) n List.mem_cons_self, .ofList mid,
    hmarks, fun other hother => hmarks.unique hother, hparse, ?_⟩
  simp only [readSource, hparse]
  exact congrArg _ hread

/-- The quoted list inside a list, cut out of its source. -/
theorem parse_slice_quoted : "( \x7b\x7d)".utf8ByteSize ≤ Span.limit ∧
    ∃ tree, parse "( \x7b\x7d)" = .ok tree ∧ ∃ n ∈ tree.nodes, n.tag ∈ exprTags ∧
      n.info = ⟨2, 4⟩ ∧ parse "\x7b\x7d" = .ok (ofExprs 2 [n.moveBack 2]) ∧
      readSource "\x7b\x7d" = .ok (.sexpr [n.read]) := by
  have hl : "( \x7b\x7d)".utf8ByteSize ≤ Span.limit := by decide
  have hlex : (Token.lex "( \x7b\x7d)").toOption = some
      [.ofChars (.opener .round) 0 ['('], .ofChars (.opener .curly) 2 ['\x7b'],
        .ofChars (.closer .curly) 3 ['\x7d'], .ofChars (.closer .round) 4 [')']] := by
    decide +kernel
  cases htokens : Token.lex "( \x7b\x7d)" with
  | error e =>
    rw [htokens] at hlex
    cases hlex
  | ok tokens =>
    rw [htokens] at hlex
    cases hlex
    have hquoted := @Derives.group .curly (.ofChars (.opener .curly) 2 ['\x7b'])
      (.ofChars (.closer .curly) 3 ['\x7d']) [] [] [] [] rfl rfl .nil .nil
    have hall := @Derives.group .round (.ofChars (.opener .round) 0 ['('])
      (.ofChars (.closer .round) 4 [')']) _ [] _ [] rfl rfl hquoted .nil
    have h := parse_eq_ok_iff.2 ⟨_, _, htokens, hall, rfl⟩
    have hmem : ∀ {size b o c} {n : ParseTree}, n ∈ (ofExprs size [ofGroup b o c [n]]).nodes := by
      intro size b o c n
      have hchild : ofGroup b o c [n] ∈ (ofExprs size [ofGroup b o c [n]]).children := by
        simp [ofExprs]
      exact mem_nodes_of_mem_children hchild
        (mem_nodes_of_mem_children (by simp [ofGroup]) (mem_nodes_self n))
    obtain ⟨-, slice, -, hunique, hparse, hread⟩ := parse_slice hl h hmem (by decide)
    obtain rfl : "\x7b\x7d" = slice := hunique _ ⟨"( ", ")", by decide, by decide, by decide⟩
    exact ⟨hl, _, h, _, hmem, by decide, rfl, hparse, hread⟩

end Abacus.Tree
