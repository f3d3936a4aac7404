import Abacus.Proofs.Json.Text

/-!
# What is read back from its JSON text

Values, messages, operators and spans are decoded from the documents that their texts are parsed as.
Every message, operator and span is read back from its text, whatever its characters or numbers are.
So is a value if the brackets of its document are not nested deeper than the limit; a value that is
nested deeper is refused, and never taken for another one.

Headlines:
* `toValue?_document`: what the document of a value is decoded to, within every depth.
* `spells_encode`: the text of a value has the tokens of its document.
* `decode_encode`: which texts are read back.
-/

namespace Abacus.Json

/-! ## How deep brackets are nested -/

/-- How deep the brackets of a document are nested. -/
def depth : Json → Nat
  | array items => (items.map depth).foldr max 0 + 1
  | object members => (members.map fun m => depth m.2).foldr max 0 + 1
  | _ => 0
termination_by d => sizeOf d
decreasing_by
  · exact sizeOf_lt_of_mem_items ‹_›
  · exact sizeOf_lt_of_mem_members ‹_›

theorem foldr_max_le_iff {ns : List Nat} {k : Nat} : ns.foldr max 0 ≤ k ↔ ∀ n ∈ ns, n ≤ k := by
  induction ns with
  | nil => exact iff_of_true (Nat.zero_le k) nofun
  | cons n ns ih => rw [List.foldr_cons, Nat.max_le, ih, List.forall_mem_cons]

theorem depth_array (items : List Json) :
    (array items).depth = (items.map depth).foldr max 0 + 1 := by
  rw [depth]

theorem depth_object_single (key : Option String) (d : Json) :
    (object [(key, d)]).depth = d.depth + 1 := by
  rw [depth, List.map_singleton, List.foldr_cons, List.foldr_nil, Nat.max_zero]

theorem depth_number (n : Option Int) : (number n).depth = 0 := by
  rw [depth] <;> exact nofun

theorem depth_string (text : Option String) : (string text).depth = 0 := by
  rw [depth] <;> exact nofun

/-! ## The documents of values -/

/-- The document of a message. -/
def messageDocument (message : String) : Json :=
  object [(some "message", string (some message))]

/-- The document of a value. -/
def document : Value → Json
  | .number n => object [(some "Number", number (some n.toInt))]
  | .error message => object [(some "Error", messageDocument message)]
  | .symbol name => object [(some "Symbol", string (some name))]
  | .sexpr cells => object [(some "SExpr", array (cells.map document))]
  | .qexpr cells => object [(some "QExpr", array (cells.map document))]

theorem document_sexpr (cells : List Value) :
    document (.sexpr cells) = object [(some "SExpr", array (cells.map document))] := by
  rw [document]

theorem document_qexpr (cells : List Value) :
    document (.qexpr cells) = object [(some "QExpr", array (cells.map document))] := by
  rw [document]

/-! ### Decoding documents -/

theorem toMessage?_messageDocument (depth : Nat) (message : String) :
    toMessage? depth (messageDocument message) = if 1 ≤ depth then some message else none := by
  cases depth with
  | zero => rfl
  | succ depth => rfl

theorem mapM_toValue?_documents {depth : Nat} {cells : List Value}
    (h : ∀ c ∈ cells, toValue? depth (document c) =
      if (document c).depth ≤ depth then some c else none) :
    (cells.map document).mapM (toValue? depth) =
      if ∀ c ∈ cells, (document c).depth ≤ depth then some cells else none := by
  induction cells with
  | nil => rfl
  | cons c cs ih =>
    obtain ⟨hc, hcs⟩ := List.forall_mem_cons.1 h
    have hiff : (∀ c' ∈ c :: cs, (document c').depth ≤ depth) ↔
        (document c).depth ≤ depth ∧ ∀ c' ∈ cs, (document c').depth ≤ depth := List.forall_mem_cons
    rw [List.map_cons, List.mapM_cons, hc, ih hcs]
    by_cases hfirst : (document c).depth ≤ depth
    · by_cases hrest : ∀ c ∈ cs, (document c).depth ≤ depth
      · rw [if_pos hfirst, if_pos hrest, if_pos (hiff.2 ⟨hfirst, hrest⟩)]
        rfl
      · rw [if_pos hfirst, if_neg hrest, if_neg fun h => hrest (hiff.1 h).2]
        rfl
    · rw [if_neg hfirst, if_neg fun h => hfirst (hiff.1 h).1]
      rfl

theorem depth_list_le_iff {key : Option String} {cells : List Value} {k : Nat} :
    (object [(key, array (cells.map document))]).depth ≤ k + 2 ↔
      ∀ c ∈ cells, (document c).depth ≤ k := by
  rw [depth_object_single, depth_array, Nat.add_assoc, Nat.add_le_add_iff_right, foldr_max_le_iff,
    List.forall_mem_map, List.forall_mem_map]

/-- A list is decoded from the array of its cells, whatever its kind is called. -/
theorem toValue?_list {key : String} {ofCells : List Value → Value} {cells : List Value}
    (hshallow : ∀ items, toValue? 0 (object [(some key, array items)]) = none ∧
      toValue? 1 (object [(some key, array items)]) = none)
    (hkey : ∀ depth items, toValue? (depth + 2) (object [(some key, array items)]) =
      (items.mapM (toValue? depth)).map ofCells)
    (h : ∀ c ∈ cells, ∀ depth, toValue? depth (document c) =
      if (document c).depth ≤ depth then some c else none) (depth : Nat) :
    toValue? depth (object [(some key, array (cells.map document))]) =
      if (object [(some key, array (cells.map document))]).depth ≤ depth then some (ofCells cells)
      else none := by
  have hdeep : 2 ≤ (object [(some key, array (cells.map document))]).depth := by
    rw [depth_object_single, depth_array]
    omega
  match depth with
  | 0 => rw [(hshallow _).1, if_neg (by omega)]
  | 1 => rw [(hshallow _).2, if_neg (by omega)]
  | depth + 2 =>
    rw [hkey, mapM_toValue?_documents fun c hc => h c hc depth]
    by_cases hfits : ∀ c ∈ cells, (document c).depth ≤ depth
    · rw [if_pos hfits, if_pos (depth_list_le_iff.2 hfits)]
      rfl
    · rw [if_neg hfits, if_neg (mt depth_list_le_iff.1 hfits)]
      rfl

/-- **A document of a value is decoded as it, if it is not nested too deep**, and not at all
otherwise. -/
theorem toValue?_document (v : Value) (depth : Nat) :
    toValue? depth (document v) = if (document v).depth ≤ depth then some v else none := by
  induction v generalizing depth with
  | number n =>
    rw [document, depth_object_single, depth_number]
    cases depth with
    | zero => rfl
    | succ depth =>
      rw [toValue?, Number.ofInt?_toInt, if_pos (by omega)]
      rfl
  | error message =>
    have hdepth : (document (.error message)).depth = 2 := by
      rw [document, depth_object_single, messageDocument, depth_object_single, depth_string]
    rw [hdepth, document]
    cases depth with
    | zero => rfl
    | succ depth =>
      rw [toValue?, toMessage?_messageDocument]
      by_cases h : 1 ≤ depth
      · rw [if_pos h, if_pos (by omega)]
        rfl
      · rw [if_neg h, if_neg (by omega)]
        rfl
  | symbol name =>
    rw [document, depth_object_single, depth_string]
    cases depth with
    | zero => rfl
    | succ depth =>
      rw [toValue?, if_pos (by omega)]
      rfl
  | sexpr cells ih =>
    rw [document_sexpr]
    exact toValue?_list (fun _ => ⟨rfl, rfl⟩) (fun _ _ => by rw [toValue?]) ih depth
  | qexpr cells ih =>
    rw [document_qexpr]
    exact toValue?_list (fun _ => ⟨rfl, rfl⟩) (fun _ _ => by rw [toValue?]) ih depth

/-! ## The texts of documents -/

/-- A key that needs no escapes is written between quotation marks. -/
theorem spells_key {key : String} (h : key.toList.flatMap escape = key.toList) :
    Spells ('"' :: key.toList ++ ['"', ':']) [.scalar (.string (some key)), .colon] := by
  have hquote : (quote key).toList = '"' :: key.toList ++ ['"'] := by
    simp [quote, h]
  have := (spells_quote key).append (spells_ofChar (c := ':') rfl)
  rw [hquote, List.append_assoc] at this
  exact this

/-- **An object with a single member** is read from its key and the text of its value. -/
theorem spells_single {key value : String} {d : Json} (hkey : key.toList.flatMap escape = key.toList)
    (hvalue : Spells (value.toList ++ ['\x7d']) (d.tokens ++ [.closeObject])) :
    Spells (single key value).toList (object [(some key, d)]).tokens := by
  have htext : (single key value).toList =
      ['\x7b'] ++ (('"' :: key.toList ++ ['"', ':']) ++ (value.toList ++ ['\x7d'])) := by
    simp [single]
  rw [htext, tokens_object, List.map_singleton, List.intercalate_singleton, memberTokens]
  exact (spells_ofChar (t := .openObject) rfl).append ((spells_key hkey).append hvalue)

theorem tokens_string (text : Option String) : (string text).tokens = [.scalar (string text)] :=
  tokens_scalar nofun nofun

theorem tokens_number (n : Option Int) : (number n).tokens = [.scalar (number n)] :=
  tokens_scalar nofun nofun

theorem spells_messageDocument (message : String) :
    Spells (encodeMessage message).toList (messageDocument message).tokens := by
  refine spells_single (by decide) ?_
  rw [tokens_string]
  exact (spells_quote message).append (spells_ofChar rfl)

/-- The cells of a list are read one after the other. -/
theorem spells_cells {cells : List Value}
    (h : ∀ c ∈ cells, Spells (encode c).toList (document c).tokens) :
    Spells (",".intercalate (cells.map encode)).toList
      ([Token.comma].intercalate ((cells.map document).map tokens)) := by
  have hlater : ∀ cs : List Value, (∀ c ∈ cs, Spells (encode c).toList (document c).tokens) →
      Spells (((cs.map encode).map String.toList).flatMap (',' :: ·))
        (((cs.map document).map tokens).flatMap (.comma :: ·)) := by
    intro cs hcs
    induction cs with
    | nil => exact spells_nil
    | cons c cs ih =>
      obtain ⟨hc, hcs⟩ := List.forall_mem_cons.1 hcs
      simp only [List.map_cons, List.flatMap_cons]
      exact ((spells_ofChar (c := ',') rfl).append hc).append (ih hcs)
  have hcomma : ",".toList = [','] := rfl
  rw [String.toList_intercalate, hcomma]
  cases cells with
  | nil => exact spells_nil
  | cons c cs =>
    obtain ⟨hc, hcs⟩ := List.forall_mem_cons.1 h
    simp only [List.map_cons, intercalate_cons]
    exact hc.append (hlater cs hcs)

/-- The array of the cells of a list is read from the text between its brackets. -/
theorem spells_list {key text : String} {cells : List Value}
    (hkey : key.toList.flatMap escape = key.toList)
    (htext : text = single key ("[" ++ ",".intercalate (cells.map encode) ++ "]"))
    (h : ∀ c ∈ cells, Spells (encode c).toList (document c).tokens) :
    Spells text.toList (object [(some key, array (cells.map document))]).tokens := by
  rw [htext]
  refine spells_single hkey ?_
  have hvalue : ("[" ++ ",".intercalate (cells.map encode) ++ "]").toList =
      ['['] ++ ((",".intercalate (cells.map encode)).toList ++ [']']) := by
    simp
  rw [hvalue, tokens_array]
  exact ((spells_ofChar (t := .openArray) rfl).append ((spells_cells h).append
    (spells_ofChar rfl))).append (spells_ofChar rfl)

/-- **The text of a value has the tokens of its document.** -/
theorem spells_encode (v : Value) : Spells (encode v).toList (document v).tokens := by
  induction v with
  | number n =>
    rw [encode_number, document]
    refine spells_single (by decide) ?_
    rw [tokens_number]
    exact spells_number n.toInt rfl
  | error message =>
    rw [encode_error, document]
    exact spells_single (by decide) ((spells_messageDocument message).append (spells_ofChar rfl))
  | symbol name =>
    rw [encode_symbol, document]
    refine spells_single (by decide) ?_
    rw [tokens_string]
    exact (spells_quote name).append (spells_ofChar rfl)
  | sexpr cells ih =>
    rw [encode_sexpr, document_sexpr]
    refine spells_list (by decide) ?_ ih
    rw [single, ← String.toList_inj]
    simp
  | qexpr cells ih =>
    rw [encode_qexpr, document_qexpr]
    refine spells_list (by decide) ?_ ih
    rw [single, ← String.toList_inj]
    simp

/-! ## Round trips -/

/-- **A value is read back from its text if its document is not nested too deep**, and is refused
otherwise. -/
theorem decodeValue?_encode (v : Value) :
    decodeValue? (encode v) = if (document v).depth ≤ depthLimit then some v else none := by
  rw [decodeValue?, parse?_of_spells (spells_encode v), Option.bind_some, toValue?_document]

theorem decodeMessage?_encodeMessage (message : String) :
    decodeMessage? (encodeMessage message) = some message := by
  rw [decodeMessage?, parse?_of_spells (spells_messageDocument message), Option.bind_some,
    toMessage?_messageDocument, if_pos (by decide)]

theorem decodeOperator?_encodeOperator (op : Operator) :
    decodeOperator? (encodeOperator op) = some op := by
  have hspells := spells_quote (operatorName op)
  rw [← tokens_string] at hspells
  rw [decodeOperator?, encodeOperator, parse?_of_spells hspells, Option.bind_some, toOperator?,
    operatorNamed?_operatorName]

/-- The document of a span. -/
def spanDocument (s : Span) : Json :=
  object [(some "start", number (some s.start.toNat)), (some "end", number (some s.stop.toNat))]

theorem toOffset?_toNat (k : UInt32) : toOffset? (number (some (k.toNat : Int))) = some k := by
  have hle : k.toNat ≤ Span.limit := by
    have := k.toNat_lt_size
    rw [Span.limit]
    omega
  have hclamp : UInt32.ofNatClamp k.toNat = k := by
    rw [← UInt32.toNat_inj, Span.toNat_clamp, Nat.min_eq_left hle]
  rw [toOffset?, if_pos ⟨by omega, by omega⟩, Int.toNat_natCast, hclamp]

theorem toSpan?_spanDocument (s : Span) : toSpan? (spanDocument s) = some s := by
  have hfields : ∀ a b : Json,
      field? [(some "start", a), (some "end", b)] "start" = some a ∧
        field? [(some "start", a), (some "end", b)] "end" = some b := fun _ _ => ⟨rfl, rfl⟩
  obtain ⟨hstart, hstop⟩ := hfields (number (some s.start.toNat)) (number (some s.stop.toNat))
  rw [spanDocument, toSpan?, hstart, hstop, Option.bind_some, Option.bind_some, toOffset?_toNat,
    toOffset?_toNat]

/-- An offset is read up to the next character that is not a part of it. -/
theorem spells_offset (k : Nat) {c : Char} {t : Token} (h : Token.ofChar? c = some t) :
    Spells (k.repr.toList ++ [c]) [.scalar (.number (some k)), t] := by
  have hrepr : (k : Int).repr = k.repr := by
    rw [Int.repr_eq_if, if_pos (Int.natCast_nonneg k), Int.toNat_natCast]
  exact hrepr ▸ spells_number k h

theorem spells_encodeSpan (s : Span) : Spells (encodeSpan s).toList (spanDocument s).tokens := by
  have htext : (encodeSpan s).toList =
      ['\x7b'] ++ (('"' :: "start".toList ++ ['"', ':']) ++ ((s.start.toNat.repr.toList ++ [',']) ++
        (('"' :: "end".toList ++ ['"', ':']) ++ (s.stop.toNat.repr.toList ++ ['\x7d'])))) := by
    simp [encodeSpan]
  have htokens : (spanDocument s).tokens =
      [.openObject] ++ ([.scalar (.string (some "start")), .colon] ++
        ([.scalar (.number (some s.start.toNat)), .comma] ++
          ([.scalar (.string (some "end")), .colon] ++
            [.scalar (.number (some s.stop.toNat)), .closeObject]))) := by
    rw [spanDocument, tokens_object, List.map_cons, List.map_singleton, intercalate_cons,
      memberTokens, memberTokens, tokens_number, tokens_number]
    rfl
  rw [htext, htokens]
  exact (spells_ofChar rfl).append ((spells_key (by decide)).append ((spells_offset _ rfl).append
    ((spells_key (by decide)).append (spells_offset _ rfl))))

theorem decodeSpan?_encodeSpan (s : Span) : decodeSpan? (encodeSpan s) = some s := by
  rw [decodeSpan?, parse?_of_spells (spells_encodeSpan s), Option.bind_some, toSpan?_spanDocument]

/-- **What is read back from its text**: every message, operator and span, and every value whose text
does not nest brackets deeper than the limit. A value that is nested deeper is refused. -/
theorem decode_encode :
    (∀ v, ∃ d, parse? (encode v) = some d ∧
        decodeValue? (encode v) = if d.depth ≤ depthLimit then some v else none) ∧
      (∀ message, decodeMessage? (encodeMessage message) = some message) ∧
      (∀ op, decodeOperator? (encodeOperator op) = some op) ∧
      ∀ s, decodeSpan? (encodeSpan s) = some s := by
  refine ⟨fun v => ?_, decodeMessage?_encodeMessage, decodeOperator?_encodeOperator,
    decodeSpan?_encodeSpan⟩
  exact ⟨document v, parse?_of_spells (spells_encode v), decodeValue?_encode v⟩

/-! ## Deep values -/

/-- An empty list inside of a number of lists. -/
def nested : Nat → Value
  | 0 => .sexpr []
  | n + 1 => .sexpr [nested n]

theorem depth_nested (n : Nat) : (document (nested n)).depth = 2 * n + 2 := by
  induction n with
  | zero => rw [nested, document_sexpr, depth_object_single, depth_array]; rfl
  | succ n ih =>
    rw [nested, document_sexpr, depth_object_single, depth_array, List.map_singleton,
      List.map_singleton, List.foldr_cons, List.foldr_nil, ih]
    omega

/-- A list of 64 levels is not read back. -/
theorem decodeValue?_encode_nested : decodeValue? (encode (nested 63)) ≠ some (nested 63) := by
  rw [decodeValue?_encode, depth_nested, if_neg (by decide)]
  exact nofun

end Abacus.Json
