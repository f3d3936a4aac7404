import Abacus.Proofs.Text.Pieces
import Abacus.Proofs.Tree.Slices
import Abacus.Tree.Dump

/-!
# What a dump shows

The dump of a syntax tree shows the tokens of its source and nothing else. A line gives away where
the tag of its node ends and whether the node is a leaf, and then the text of the leaf; the leaves are
the tokens, and their texts tell the kinds. The other way round, the tree depends on the
places of the tokens only in the places of its nodes, which no line shows.

Headlines:
* `dumpLine_inj`: a line gives away the tag of its node and the text that it shows.
* `map_contents_leaves_of_dump`: trees with equal dumps have leaves with equal texts.
* `Derives.exists_of_map_look`: tokens of the same kinds and texts have the same trees, up to places.
* `dump_eq_iff`: the dumps of two sources are equal exactly if their tokens have the same kinds and
  texts.
-/

namespace Abacus

/-- Lists with equal images under `f` have equal images under `g`, if `f` tells apart what `g` does. -/
theorem map_eq_map_of_map_eq_map {α β γ : Type} {f : α → β} {g : α → γ} {xs ys : List α}
    (hfg : ∀ x ∈ xs, ∀ y ∈ ys, f x = f y → g x = g y) (h : xs.map f = ys.map f) :
    xs.map g = ys.map g := by
  induction xs generalizing ys with
  | nil =>
    rw [List.map_nil, eq_comm, List.map_eq_nil_iff] at h
    rw [h]
  | cons x xs ih =>
    cases ys with
    | nil => cases h
    | cons y ys =>
      obtain ⟨hx, hxs⟩ := List.cons.inj h
      have hrest := ih (fun x hx y hy => hfg x (List.mem_cons_of_mem _ hx) y
        (List.mem_cons_of_mem _ hy)) hxs
      rw [List.map_cons, List.map_cons, hrest, hfg x List.mem_cons_self y List.mem_cons_self hx]

namespace Tree

/-! ## Lines -/

section Lines

variable {ι : Type}

/-- What a line shows of the text of its node: nothing if the node has children. -/
def shownText (t : Tree ι) : List Char :=
  if t.children.isEmpty then " '".toList ++ t.contents.toList ++ "'".toList else []

/-- A node with a tag that is one word, and a text without line feeds. -/
structure Plain (t : Tree ι) : Prop where
  tag_ne : t.tag.toList ≠ []
  tag : ∀ c ∈ t.tag.toList, c ≠ ' ' ∧ c ≠ '\n'
  contents : '\n' ∉ t.contents.toList

theorem toList_dumpLine (depth : Nat) (t : Tree ι) :
    (dumpLine depth t).toList =
      List.replicate (2 * depth) ' ' ++ (t.tag.toList ++ t.shownText) ++ ['\n'] := by
  unfold dumpLine shownText
  split
  · simp only [String.toList_append, String.toList_ofList, List.append_assoc]
    rfl
  · simp

/-- A line ends with its only line feed. -/
theorem ne_of_mem_line {depth : Nat} {t : Tree ι} (h : t.Plain) :
    ∀ c ∈ List.replicate (2 * depth) ' ' ++ (t.tag.toList ++ t.shownText), (c == '\n') = false := by
  intro c hc
  rw [beq_eq_false_iff_ne]
  rw [List.mem_append, List.mem_append] at hc
  rcases hc with hc | hc | hc
  · rw [(List.mem_replicate.1 hc).2]
    decide
  · exact (h.tag c hc).2
  · unfold shownText at hc
    split at hc
    · rw [List.mem_append, List.mem_append] at hc
      rintro rfl
      rcases hc with (hc | hc) | hc
      · exact absurd hc (by decide)
      · exact h.contents hc
      · exact absurd hc (by decide)
    · cases hc

/-- What comes after a word, in a line, does not belong to it. -/
theorem takeWhile_tag {t : Tree ι} (h : t.Plain) :
    (t.tag.toList ++ (t.shownText ++ ['\n'])).takeWhile (fun c => c ≠ ' ' ∧ c ≠ '\n') =
      t.tag.toList := by
  rw [List.takeWhile_append_of_pos fun c hc => by simpa using h.tag c hc]
  unfold shownText
  split <;> simp

theorem dropWhile_indentation {t : Tree ι} (h : t.Plain) (depth : Nat) :
    (dumpLine depth t).toList.dropWhile (· = ' ') =
      t.tag.toList ++ (t.shownText ++ ['\n']) := by
  obtain ⟨c, cs, hc⟩ := List.exists_cons_of_ne_nil h.tag_ne
  have hne := (h.tag c (hc ▸ List.mem_cons_self)).1
  rw [toList_dumpLine, List.append_assoc, List.dropWhile_append_of_pos, List.append_assoc, hc,
    List.cons_append, List.dropWhile_cons_of_neg (by simpa using hne)]
  intro d hd
  simpa using (List.mem_replicate.1 hd).2

/-- **A line gives away the tag of its node and the text that it shows.** -/
theorem dumpLine_inj {t u : Tree ι} (ht : t.Plain) (hu : u.Plain) {depth level : Nat}
    (h : dumpLine depth t = dumpLine level u) : t.tag = u.tag ∧ t.shownText = u.shownText := by
  have hline := congrArg (fun line => line.toList.dropWhile (· = ' ')) h
  rw [dropWhile_indentation ht, dropWhile_indentation hu] at hline
  have htag := congrArg (List.takeWhile (fun c => c ≠ ' ' ∧ c ≠ '\n')) hline
  rw [takeWhile_tag ht, takeWhile_tag hu] at htag
  rw [htag, List.append_cancel_left_eq, List.append_cancel_right_eq] at hline
  exact ⟨String.toList_inj.1 htag, hline⟩

/-! ## Dumps -/

/-- What the line of a node shows besides its depth. -/
def shown (t : Tree ι) : String × List Char := (t.tag, t.shownText)

/-- A dump is cut into the lines of the nodes. -/
theorem cutAfter_dump {t : Tree ι} (h : ∀ n ∈ t.nodes, n.Plain) :
    Text.cutAfter (· == '\n') t.dump.toList =
      (t.preorder 0).map fun p => (dumpLine p.1 p.2).toList := by
  rw [dump, dumpAt, String.toList_join, List.flatMap_map]
  rw [nodes, List.forall_mem_map] at h
  exact Text.cutAfter_flatMap fun p hp =>
    ⟨_, '\n', toList_dumpLine p.1 p.2, ne_of_mem_line (h p hp), rfl⟩

/-- **Equal dumps show the same at every node.** -/
theorem map_shown_nodes_of_dump {t u : Tree ι} (ht : ∀ n ∈ t.nodes, n.Plain)
    (hu : ∀ n ∈ u.nodes, n.Plain) (h : t.dump = u.dump) :
    t.nodes.map shown = u.nodes.map shown := by
  have hlines := congrArg (fun text : String => Text.cutAfter (· == '\n') text.toList) h
  rw [cutAfter_dump ht, cutAfter_dump hu] at hlines
  rw [nodes, List.forall_mem_map] at ht hu
  have hshown := map_eq_map_of_map_eq_map (g := fun p => p.2.shown) (fun p hp q hq hline =>
    Prod.ext_iff.2 (dumpLine_inj (ht p hp) (hu q hq) (String.toList_inj.1 hline))) hlines
  rw [nodes, nodes, List.map_map, List.map_map]
  exact hshown

/-- Leaves are the nodes whose lines show a text. -/
theorem map_shown_leaves (t : Tree ι) :
    t.leaves.map shown = (t.nodes.map shown).filter fun p => !p.2.isEmpty := by
  have hleaf : ∀ n ∈ t.nodes, n.children.isEmpty = (!n.shown.2.isEmpty) := by
    intro n _
    unfold shown shownText
    split
    · next h => rw [h]; rfl
    · next h => rw [Bool.not_eq_true] at h; rw [h]; rfl
  rw [leaves, List.filter_map, List.filter_congr hleaf]
  rfl

theorem shown_of_mem_leaves {t n : Tree ι} (h : n ∈ t.leaves) :
    n.shown = (n.tag, " '".toList ++ n.contents.toList ++ "'".toList) := by
  rw [shown, shownText, if_pos (List.mem_filter.1 h).2]

/-- **Trees with equal dumps have leaves with equal texts.** -/
theorem map_contents_leaves_of_dump {t u : Tree ι} (ht : ∀ n ∈ t.nodes, n.Plain)
    (hu : ∀ n ∈ u.nodes, n.Plain) (h : t.dump = u.dump) :
    t.leaves.map contents = u.leaves.map contents := by
  have hshown := map_shown_nodes_of_dump ht hu h
  refine map_eq_map_of_map_eq_map (f := shown) (fun m hm n hn hmn => ?_) ?_
  · rw [shown_of_mem_leaves hm, shown_of_mem_leaves hn] at hmn
    have htext := (Prod.mk.inj hmn).2
    rw [List.append_cancel_right_eq, List.append_cancel_left_eq] at htext
    exact String.toList_inj.1 htext
  · rw [map_shown_leaves, map_shown_leaves, hshown]

/-- **A dump does not show the information at the nodes.** -/
theorem dumpAt_mapInfo {κ : Type} (f : ι → κ) (t : Tree ι) (depth : Nat) :
    (t.mapInfo f).dumpAt depth = t.dumpAt depth := by
  induction t generalizing depth with
  | node t ih =>
    have hchildren : (t.children.map (mapInfo f)).map (dumpAt (depth + 1)) =
        t.children.map (dumpAt (depth + 1)) := by
      rw [List.map_map]
      exact List.map_congr_left fun c hc => ih c hc (depth + 1)
    have hline : dumpLine depth (t.mapInfo f) = dumpLine depth t := by
      rw [mapInfo_eq]
      unfold dumpLine
      rw [List.isEmpty_map]
    rw [dumpAt_eq, dumpAt_eq depth t, hline, mapInfo_eq, hchildren]

end Lines

/-! ## From the dump to the tokens -/

/-- Every node of a source is plain. -/
theorem plain_of_derives {ts : List Token} {exprs : List ParseTree} (h : Derives ts exprs)
    (hs : ∀ t ∈ ts, WellSpelled t) (size : Nat) : ∀ n ∈ (ofExprs size exprs).nodes, n.Plain := by
  have htags : ∀ tag ∈ Tag.all,
      tag.toList ≠ [] ∧ tag.toList.all fun c => c ≠ ' ' ∧ c ≠ '\n' := by decide
  have hplain : ∀ n : ParseTree, n.tag ∈ Tag.all → '\n' ∉ n.contents.toList → n.Plain := by
    intro n htag hcontents
    obtain ⟨hne, hchars⟩ := htags n.tag htag
    exact ⟨hne, fun c hc => of_decide_eq_true (List.all_eq_true.1 hchars c hc), hcontents⟩
  have hleaf : ∀ t tag, tag ∈ Tag.all → WellSpelled t → (leaf tag t).Plain := by
    intro t tag htag hs
    refine hplain _ htag fun hmem => ?_
    have hblank := Token.isBlank_eq_false_of_spells hs hmem
    cases hblank
  have hempty : ∀ n : ParseTree, n.tag ∈ Tag.all → n.contents = "" → n.Plain := by
    intro n htag hcontents
    refine hplain n htag ?_
    rw [hcontents]
    exact nofun
  have hroot : Tag.root ∈ Tag.all := by decide
  have hregex : Tag.regex ∈ Tag.all := by decide
  have hlist : ∀ b, Tag.list b ∈ Tag.all := by
    intro b
    cases b <;> decide
  refine forall_mem_nodes_ofExprs ?_ ?_ ?_
  · exact hempty _ hroot rfl
  · exact fun offset => hempty _ hregex rfl
  · refine forall_nodes_of_derives ?_ ?_ ?_ ?_ ?_ h hs
    · exact fun t hs _ => hleaf t _ (by decide) hs
    · exact fun t hs _ => hleaf t _ (by decide) hs
    · exact fun t _ hs _ => hleaf t _ (by decide) hs
    · exact fun t _ hs _ => hleaf t _ (by decide) hs
    · exact fun b _ _ _ _ _ _ _ _ _ _ => hempty _ (hlist b) rfl

theorem leaves_ofExprs {ts : List Token} {exprs : List ParseTree} (h : Derives ts exprs)
    (size : Nat) : (ofExprs size exprs).leaves =
      anchor 0 :: ts.map ofToken ++ [anchor (Span.ofRange 0 size).stop] := by
  rw [leaves_between (children_ofExprs size exprs) rfl rfl, leaves_of_derives h]

theorem map_contents_leaves_ofExprs {ts : List Token} {exprs : List ParseTree}
    (h : Derives ts exprs) (size : Nat) :
    (ofExprs size exprs).leaves.map contents = "" :: ts.map Token.text ++ [""] := by
  rw [leaves_ofExprs h, List.map_append, List.map_cons, List.map_map]
  rfl

end Tree

/-- What a token is, wherever it stands. -/
def Token.look (t : Token) : Token.Kind × String := (t.kind, t.text)

namespace Tree

/-- Well-spelled tokens are told by their texts. -/
theorem map_look_of_map_text {ts us : List Token} (hs : ∀ t ∈ ts, WellSpelled t)
    (hs' : ∀ u ∈ us, WellSpelled u) (h : ts.map Token.text = us.map Token.text) :
    ts.map Token.look = us.map Token.look := by
  refine map_eq_map_of_map_eq_map (fun t ht u hu htext => ?_) h
  have hu := hs' u hu
  rw [WellSpelled, ← htext] at hu
  rw [Token.look, Token.look, Token.eq_of_spells (hs t ht) hu, htext]

/-! ## From the tokens to the dump -/

/-- A tree without places. -/
def unplaced (t : ParseTree) : Tree Unit := t.mapInfo fun _ => ()

theorem unplaced_leaf {t u : Token} (h : t.look = u.look) (tag : String) :
    (leaf tag t).unplaced = (leaf tag u).unplaced := by
  obtain ⟨-, htext⟩ := Prod.mk.inj h
  rw [unplaced, unplaced, mapInfo_eq, mapInfo_eq, leaf, leaf, htext]

theorem unplaced_ofGroup {b : Bracket} {o c o' c' : Token} {items items' : List ParseTree}
    (ho : o.look = o'.look) (hc : c.look = c'.look)
    (hi : items.map unplaced = items'.map unplaced) :
    (ofGroup b o c items).unplaced = (ofGroup b o' c' items').unplaced := by
  have hchildren : ∀ (o c : Token) (items : List ParseTree),
      (ofGroup b o c items).children.map unplaced = (leaf Tag.char o).unplaced ::
        items.map unplaced ++ [(leaf Tag.char c).unplaced] := by
    intro o c items
    rw [ofGroup, List.map_append, List.map_cons, List.map_singleton]
  rw [unplaced, unplaced, mapInfo_eq, mapInfo_eq]
  change Tree.mk _ _ _ ((ofGroup b o c items).children.map unplaced) =
    Tree.mk _ _ _ ((ofGroup b o' c' items').children.map unplaced)
  rw [hchildren, hchildren, unplaced_leaf ho, unplaced_leaf hc, hi]
  rfl

/-- **Tokens that look the same derive the same trees, up to places.** -/
theorem Derives.exists_of_map_look {ts us : List Token} {exprs : List ParseTree}
    (h : Derives ts exprs) (hlook : us.map Token.look = ts.map Token.look) :
    ∃ more, Derives us more ∧ more.map unplaced = exprs.map unplaced := by
  induction h generalizing us with
  | nil =>
    rw [List.map_nil, List.map_eq_nil_iff] at hlook
    exact ⟨[], hlook ▸ .nil, rfl⟩
  | number ht _ ih =>
    rw [List.map_cons, List.map_eq_cons_iff] at hlook
    obtain ⟨u, us, rfl, hu, hus⟩ := hlook
    obtain ⟨more, hmore, he⟩ := ih hus
    refine ⟨_, .number ((Prod.mk.inj hu).1.trans ht) hmore, ?_⟩
    rw [List.map_cons, List.map_cons, unplaced_leaf hu, he]
  | symbol ht _ ih =>
    rw [List.map_cons, List.map_eq_cons_iff] at hlook
    obtain ⟨u, us, rfl, hu, hus⟩ := hlook
    obtain ⟨more, hmore, he⟩ := ih hus
    refine ⟨_, .symbol ((Prod.mk.inj hu).1.trans ht) hmore, ?_⟩
    rw [List.map_cons, List.map_cons, unplaced_leaf hu, he]
  | group ho hc _ _ ihi ih =>
    rw [List.map_append, List.map_cons, List.map_cons, List.map_eq_append_iff] at hlook
    obtain ⟨front, back, rfl, hfront, hback⟩ := hlook
    obtain ⟨o, inside, rfl, hlo, hinside⟩ := List.map_eq_cons_iff.1 hfront
    obtain ⟨c, us, rfl, hlc, hus⟩ := List.map_eq_cons_iff.1 hback
    obtain ⟨items, hitems, hei⟩ := ihi hinside
    obtain ⟨more, hmore, he⟩ := ih hus
    refine ⟨_, .group ((Prod.mk.inj hlo).1.trans ho) ((Prod.mk.inj hlc).1.trans hc) hitems hmore, ?_⟩
    rw [List.map_cons, List.map_cons, unplaced_ofGroup hlo hlc hei, he]

/-- The dump of the tree of a source shows no places. -/
theorem dump_ofExprs {exprs more : List ParseTree} (h : exprs.map unplaced = more.map unplaced)
    (size size' : Nat) : (ofExprs size exprs).dump = (ofExprs size' more).dump := by
  have hanchor : ∀ offset, (anchor offset).unplaced = ⟨Tag.regex, "", (), []⟩ := by
    intro offset
    rw [unplaced, mapInfo_eq]
    rfl
  have hchildren : ∀ (size : Nat) (exprs : List ParseTree), (ofExprs size exprs).unplaced =
      ⟨Tag.root, "", (), (anchor 0).unplaced :: exprs.map unplaced ++ [(anchor 0).unplaced]⟩ := by
    intro size exprs
    rw [unplaced, mapInfo_eq]
    change Tree.mk _ _ _ ((ofExprs size exprs).children.map unplaced) = _
    rw [children_ofExprs, List.map_append, List.map_cons, List.map_singleton, hanchor, hanchor]
    rfl
  have hdump : ∀ t : ParseTree, t.dump = t.unplaced.dump :=
    fun t => (dumpAt_mapInfo (fun _ => ()) t 0).symm
  rw [hdump, hdump (ofExprs size' more), hchildren, hchildren, h]

/-- **The dumps of two sources are equal exactly if their tokens are of the same kinds and have the
same texts**, one after the other. -/
theorem dump_eq_iff {source other : String} {tree tree' : ParseTree}
    (hl : source.utf8ByteSize ≤ Span.limit) (hl' : other.utf8ByteSize ≤ Span.limit)
    (h : parse source = .ok tree) (h' : parse other = .ok tree') :
    ∃ ts us, Token.lex source = .ok ts ∧ Token.lex other = .ok us ∧
      (tree.dump = tree'.dump ↔ ts.map Token.look = us.map Token.look) := by
  obtain ⟨ts, exprs, hlex, hd, rfl⟩ := parse_eq_ok_iff.1 h
  obtain ⟨us, more, hlex', hd', rfl⟩ := parse_eq_ok_iff.1 h'
  have hs := wellSpelled_of_lex hlex hl
  have hs' := wellSpelled_of_lex hlex' hl'
  refine ⟨ts, us, hlex, hlex', ⟨fun hdump => ?_, fun hlook => ?_⟩⟩
  · have htexts := map_contents_leaves_of_dump (plain_of_derives hd hs _)
      (plain_of_derives hd' hs' _) hdump
    rw [map_contents_leaves_ofExprs hd, map_contents_leaves_ofExprs hd',
      List.append_cancel_right_eq] at htexts
    exact map_look_of_map_text hs hs' (List.cons.inj htexts).2
  · obtain ⟨more', hmore', he⟩ := hd'.exists_of_map_look hlook
    obtain rfl := hd.unique hmore'
    exact dump_ofExprs he _ _

/-- A blank shows in the dump only where it parts tokens. -/
theorem dump_minus_sign :
    "(-1)".utf8ByteSize ≤ Span.limit ∧ "( -1 )".utf8ByteSize ≤ Span.limit ∧
      "(- 1)".utf8ByteSize ≤ Span.limit ∧
      ∃ tree spaced parted, parse "(-1)" = .ok tree ∧ parse "( -1 )" = .ok spaced ∧
        parse "(- 1)" = .ok parted ∧ tree.dump = spaced.dump ∧ tree.dump ≠ parted.dump := by
  have hl : "(-1)".utf8ByteSize ≤ Span.limit := by decide
  have hl' : "( -1 )".utf8ByteSize ≤ Span.limit := by decide
  have hl'' : "(- 1)".utf8ByteSize ≤ Span.limit := by decide
  have hok : ∀ source ∈ ["(-1)", "( -1 )", "(- 1)"], ∃ tree, parse source = .ok tree := by
    have hall : ["(-1)", "( -1 )", "(- 1)"].all fun source => (parse source).isOk := by
      decide +kernel
    intro source hmem
    have hsource := List.all_eq_true.1 hall source hmem
    cases h : parse source with
    | error e =>
      rw [h] at hsource
      cases hsource
    | ok tree => exact ⟨tree, rfl⟩
  have hlooks : ∀ {source tokens}, Token.lex source = .ok tokens →
      (Token.lex source).toOption.map (·.map Token.look) = some (tokens.map Token.look) := by
    intro source tokens h
    rw [h]
    rfl
  have hsame : (Token.lex "(-1)").toOption.map (·.map Token.look) =
      (Token.lex "( -1 )").toOption.map (·.map Token.look) := by decide +kernel
  have hother : (Token.lex "(-1)").toOption.map (·.map Token.look) ≠
      (Token.lex "(- 1)").toOption.map (·.map Token.look) := by decide +kernel
  obtain ⟨tree, h⟩ := hok "(-1)" (by decide)
  obtain ⟨spaced, hspaced⟩ := hok "( -1 )" (by decide)
  obtain ⟨parted, hparted⟩ := hok "(- 1)" (by decide)
  refine ⟨hl, hl', hl'', tree, spaced, parted, h, hspaced, hparted, ?_, fun hdump => ?_⟩
  · obtain ⟨ts, us, hts, hus, hiff⟩ := dump_eq_iff hl hl' h hspaced
    rw [hlooks hts, hlooks hus] at hsame
    exact hiff.2 (Option.some.inj hsame)
  · obtain ⟨ts, us, hts, hus, hiff⟩ := dump_eq_iff hl hl'' h hparted
    rw [hlooks hts, hlooks hus] at hother
    exact hother (congrArg some (hiff.1 hdump))

end Tree

end Abacus
