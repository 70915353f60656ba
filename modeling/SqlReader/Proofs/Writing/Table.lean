import Mathlib.Data.Set.List
import SqlReader.Proofs.Definition.Reading

/-!
# Writing table definitions

A table with expressible columns has a definition: a tree whose tokens can be
written, with literals for all values, and which means the columns.
-/

namespace SqlReader

open Text

/-! ## Numbers -/

theorem decimal?_repr (n : Nat) : decimal? n.repr.toList = some n := by
  have hall : (Nat.toDigits 10 n).all Char.isDigit = true :=
    List.all_eq_true.mpr fun c hc => Nat.isDigit_of_mem_toDigits (by decide) (by decide) hc
  have hvalue : Nat.ofDigitChars 10 (Nat.toDigits 10 n) 0 = n :=
    Nat.ofDigitChars_toDigits (by decide) (by decide)
  have hne : (Nat.toDigits 10 n).isEmpty = false := by simp
  rw [decimal?, Nat.toList_repr, hall, hne]
  exact congrArg some hvalue

theorem unsigned?_repr (n : Nat) : unsigned? n.repr = some n := by
  unfold unsigned?
  split
  next cs hcs =>
    have hplus : '+' ∈ Nat.toDigits 10 n := by simp [← Nat.toList_repr, hcs]
    have hdigit := Nat.isDigit_of_mem_toDigits (by decide) (by decide) hplus
    cases hdigit
  · exact decimal?_repr n

theorem isDigit_head_of_mem : ∀ e ∈ vocabulary, ∀ w ∈ e.words.map String.toList,
    w.head?.all (fun c => !c.isDigit) = true := by
  decide +kernel

theorem toUpper_of_isDigit {c : Char} (h : c.isDigit = true) : c.toUpper = c := by
  apply toUpper_of_not_isLower
  intro hlow
  have hletter := isLower_iff.mp hlow
  have hdigit := isDigit_iff.mp h
  omega

theorem spelled_number (n : Nat) : (Token.word n.repr).Spelled := by
  have hdigits : ∀ c ∈ n.repr.toList, c.isDigit = true := by
    rw [Nat.toList_repr]
    exact fun c hc => Nat.isDigit_of_mem_toDigits (by decide) (by decide) hc
  have hne : n.repr.toList ≠ [] := by
    rw [Nat.toList_repr]
    exact Nat.toDigits_ne_nil
  refine spelled_word ⟨hne, List.all_eq_true.mpr fun c hc => ?_⟩ ?_
  · simp [isWordChar, Char.isAlphanum, hdigits c hc]
  · -- no word of the vocabulary begins with a digit
    apply Option.eq_none_iff_forall_ne_some.mpr
    intro k hk
    obtain ⟨e, he, hwords, -⟩ := exists_mem_of_reserved? hk
    obtain ⟨c, cs, hcs⟩ := List.exists_cons_of_ne_nil hne
    have hdigit : c.isDigit = true := hdigits c (by simp [hcs])
    have hhead := isDigit_head_of_mem e he (upper n.repr.toList) (by simp [hwords])
    simp [hcs, upper, toUpper_of_isDigit hdigit, hdigit] at hhead

/-! ## Tokens -/

def ColumnClause.tokens : ColumnClause → List Token
  | notNull => [.keyword .notNull]
  | unique => [.keyword .unique]
  | primaryKey => [.keyword .primaryKey]
  | default value => [.keyword .default, .literal value]
  | references target =>
    .keyword .references :: .word target.table :: bracketed [.word target.column]
  | check conditions connectives =>
    .keyword .check :: bracketed (chainTokens conditions connectives)

def lengthTokens : Option UInt32 → List Token
  | none => []
  | some n => bracketed [.word n.toNat.repr]

def Column.tokens (c : Column) (clauses : List ColumnClause) : List Token :=
  [.word c.name] ++ ([.word c.dataType.display] ++
    (lengthTokens c.length ++ clauses.flatMap ColumnClause.tokens))

/-! ## They can be written -/

theorem free_dataType {kind : DataType} (h : kind ≠ .unknown) : Free [.word kind.display] := by
  cases kind with
  | unknown => exact absurd rfl h
  | _ => exact .singleton (spelled_word (by decide +kernel) (by decide +kernel)) (by decide +kernel)

theorem free_length (length : Option UInt32) : Free (lengthTokens length) := by
  cases length with
  | none => exact .nil
  | some n => exact free_bracketed (.singleton (spelled_number n.toNat))

theorem ColumnClause.Expressible.free {clause : ColumnClause} (h : clause.Expressible) :
    Free clause.tokens := by
  cases clause with
  | notNull | unique | primaryKey => exact free_keyword rfl
  | default value => exact Free.cons_keyword rfl rfl (free_literal h).toSayable
  | references target =>
      have hcolumn : Free (bracketed [.word target.column]) := free_bracketed (sayable_name h.2)
      exact Free.cons_keyword rfl rfl ((sayable_name h.1).append_free hcolumn)
  | check conditions connectives =>
      have hchain : Sayable (chainTokens conditions connectives) :=
        (shut_chain h.chain.conditions).toSayable
      exact Free.cons_keyword rfl rfl (free_bracketed hchain).toSayable

theorem sayable_column {c : Column} (hname : PlainName c.name) (htype : c.dataType ≠ .unknown)
    {clauses : List ColumnClause} (hclauses : ∀ clause ∈ clauses, clause.Expressible) :
    Sayable (c.tokens clauses) := by
  have hfree : Free (clauses.flatMap ColumnClause.tokens) :=
    free_flatMap fun clause hclause => (hclauses clause hclause).free
  exact (sayable_name hname).append_free
    ((free_dataType htype).append ((free_length c.length).append hfree))

/-! ## They are read -/

open Definition

def Definition.Value.literal (text : String) : Value := ⟨.literal text, text, rfl⟩

theorem exists_term {condition : Condition} (h : condition.Expressible)
    (hrange : ∀ p ∈ condition.predicate, p.NoRange) :
    ∃ t : Term, t.tokens = condition.tokens ∧ t.condition = condition := by
  obtain ⟨name, p, rfl, hp⟩ := h.complete
  let column : Name := ⟨name, h.stores.1.identifier⟩
  cases p with
  | compare op right =>
      obtain ⟨hop, text, rfl⟩ := hp
      exact ⟨⟨column, .compare op hop (.literal text)⟩, rfl, rfl⟩
  | like negated pattern => exact ⟨⟨column, .like negated (.literal pattern)⟩, rfl, rfl⟩
  | between negated low high => exact (hrange _ rfl).elim
  | inList negated values =>
      obtain ⟨first, others, rfl⟩ := List.exists_cons_of_ne_nil hp
      refine ⟨⟨column, .inList negated (.literal first) (others.map .literal)⟩, ?_, ?_⟩
      · simp only [Term.tokens, Test.tokens, Test.operands, Test.predicate, commaList,
          List.flatMap_map]
        cases negated <;> rfl
      · simp [Term.condition, Test.predicate, Value.literal, column, Function.comp_def]

theorem exists_chain {cs : List Condition} {ls : List Connective}
    (h : ColumnClause.Checkable cs ls) :
    ∃ chain : Chain, chain.tokens = chainTokens cs ls ∧ chain.clause = .check cs ls := by
  obtain ⟨first, cs, rfl⟩ := List.exists_cons_of_ne_nil h.ne_nil
  have hcount : ls.length = cs.length := by simpa using h.chain.count
  have hterm : ∀ c ∈ first :: cs, ∃ t : Term, t.tokens = c.tokens ∧ t.condition = c :=
    fun c hc => exists_term (h.chain.conditions c hc) (h.noRange c hc)
  obtain ⟨term, htokens, hcondition⟩ := hterm first (by simp)
  obtain ⟨links, hlinks⟩ : (ls.zip cs).map (fun link => (link.1, link.2.tokens, link.2)) ∈
      Set.range (List.map fun link : Connective × Term =>
        (link.1, link.2.tokens, link.2.condition)) := by
    rw [Set.range_list_map]
    intro _ hmem
    obtain ⟨link, hlink, rfl⟩ := List.mem_map.mp hmem
    obtain ⟨t, ht, hc⟩ := hterm link.2 (by simp [(List.of_mem_zip hlink).2])
    exact ⟨(link.1, t), by simp [ht, hc]⟩
  have hconnectives : links.map (·.1) = ls := by
    simpa [Function.comp_def, List.map_fst_zip hcount.le] using congrArg (List.map (·.1)) hlinks
  have hconditions : links.map (·.2.condition) = cs := by
    simpa [Function.comp_def, List.map_snd_zip hcount.ge] using
      congrArg (List.map (·.2.2)) hlinks
  have hspelled : links.flatMap Chain.linkTokens =
      (ls.zip cs).flatMap fun link => .keyword link.1.keyword :: link.2.tokens := by
    have htokens :=
      congrArg (List.flatMap fun link => Token.keyword link.1.keyword :: link.2.1) hlinks
    rwa [List.flatMap_map, List.flatMap_map] at htokens
  refine ⟨⟨term, links⟩, ?_, ?_⟩
  · rw [Chain.tokens, htokens, hspelled, chainTokens]
  · rw [Chain.clause, Chain.conditions, Chain.connectives, hcondition, hconditions, hconnectives]

theorem exists_inline {clause : ColumnClause} (h : clause.Expressible) :
    ∃ t : InlineClause, t.tokens = clause.tokens ∧ t.clause = clause := by
  cases clause with
  | notNull => exact ⟨.notNull, rfl, rfl⟩
  | unique => exact ⟨.unique, rfl, rfl⟩
  | primaryKey => exact ⟨.primaryKey, rfl, rfl⟩
  | default value => exact ⟨.default (.literal value), rfl, rfl⟩
  | references target =>
      exact ⟨.references ⟨target.table, h.1.identifier⟩ ⟨target.column, h.2.identifier⟩, rfl, rfl⟩
  | check conditions connectives =>
      obtain ⟨chain, htokens, hclause⟩ := exists_chain h
      exact ⟨.check chain, by rw [InlineClause.tokens, htokens]; rfl, hclause⟩

theorem exists_length (length : Option UInt32) :
    ∃ l : Option Length, Field.lengthTokens l = lengthTokens length ∧ l.map (·.size) = length := by
  cases length with
  | none => exact ⟨none, rfl, rfl⟩
  | some n =>
      have hlength : Draft.columnLength? (.word n.toNat.repr) = some n := by
        simp [Draft.columnLength?, unsigned?_repr]
      exact ⟨some ⟨n.toNat.repr, n, hlength⟩, rfl, rfl⟩

theorem exists_field {c : Column} {clauses : List ColumnClause} (hname : PlainName c.name)
    (htype : c.dataType ≠ .unknown) (hclauses : ∀ clause ∈ clauses, clause.Expressible)
    (hc : clauses.foldl ColumnClause.apply
      { name := c.name, dataType := c.dataType, length := c.length } = c) :
    ∃ f : Field, f.tokens = c.tokens clauses ∧ f.column = c := by
  have hkind : DataType.ofName c.dataType.display = c.dataType := by
    generalize c.dataType = kind at htype
    cases kind with
    | unknown => exact absurd rfl htype
    | _ => exact of_decide_eq_true rfl
  obtain ⟨length, hlength, hsize⟩ := exists_length c.length
  obtain ⟨trees, htrees⟩ : clauses.map (fun clause => (clause.tokens, clause)) ∈
      Set.range (List.map fun t : InlineClause => (t.tokens, t.clause)) := by
    rw [Set.range_list_map]
    intro _ hmem
    obtain ⟨clause, hclause, rfl⟩ := List.mem_map.mp hmem
    obtain ⟨t, htokens, ht⟩ := exists_inline (hclauses clause hclause)
    exact ⟨t, by simp [htokens, ht]⟩
  have hspelled : trees.flatMap InlineClause.tokens = clauses.flatMap ColumnClause.tokens := by
    simpa [List.flatMap_map] using congrArg (List.flatMap (·.1)) htrees
  have hmeant : trees.map (·.clause) = clauses := by
    simpa [Function.comp_def] using congrArg (List.map (·.2)) htrees
  refine ⟨⟨⟨c.name, hname.identifier⟩, c.dataType.display, by rwa [hkind], length, trees⟩, ?_, ?_⟩
  · rw [Field.tokens, hlength, hspelled]
    rfl
  · simp only [Field.column, Field.bare, hmeant, hkind, hsize, hc]

/-! ## Whole definitions -/

def tableTokens (table : String) (columns : List (Column × List ColumnClause)) : List Token :=
  [.keyword .createTable] ++ (namesTokens [table] ++
    bracketed (commaList (fun c => c.1.tokens c.2) columns))

/-- Clauses for all columns. -/
theorem exists_clauses {columns : List Column} (h : ∀ c ∈ columns, c.Expressible) :
    ∃ defined : List (Column × List ColumnClause), defined.map (·.1) = columns ∧
      ∀ c ∈ defined, c.1.Expressible ∧ (∀ clause ∈ c.2, clause.Expressible) ∧
        c.2.foldl ColumnClause.apply
          { name := c.1.name, dataType := c.1.dataType, length := c.1.length } = c.1 := by
  induction columns with
  | nil => exact ⟨[], rfl, by simp⟩
  | cons c columns ih =>
      obtain ⟨hc, hcolumns⟩ := List.forall_mem_cons.mp h
      obtain ⟨clauses, hclauses⟩ := hc.exists_clauses
      obtain ⟨defined, hmap, hdefined⟩ := ih hcolumns
      refine ⟨(c, clauses) :: defined, by simp [hmap], ?_⟩
      exact List.forall_mem_cons.mpr ⟨⟨hc, hclauses⟩, hdefined⟩

theorem foldlM_build_fields (fields : List Field) (columns : List Column) :
    (fields.map Element.field).foldlM Element.build columns =
      some (columns ++ fields.map (·.column)) := by
  induction fields generalizing columns with
  | nil => simp
  | cons f fields ih =>
      rw [List.map_cons, List.foldlM_cons, Element.build]
      simpa using ih (columns ++ [f.column])

theorem exists_definition {table : String} {defined : List (Column × List ColumnClause)}
    (htable : PlainName table) (hne : defined ≠ [])
    (h : ∀ c ∈ defined, ∃ f : Field, f.tokens = c.1.tokens c.2 ∧ f.column = c.1) :
    ∃ D : Definition, D.table.text = table ∧ D.tokens = tableTokens table defined ∧
      D.columns? = some (defined.map (·.1)) := by
  obtain ⟨fields, hfields⟩ : defined.map (fun c => (c.1.tokens c.2, c.1)) ∈
      Set.range (List.map fun f : Field => (f.tokens, f.column)) := by
    rw [Set.range_list_map]
    intro _ hmem
    obtain ⟨c, hc, rfl⟩ := List.mem_map.mp hmem
    obtain ⟨f, htokens, hf⟩ := h c hc
    exact ⟨f, by simp [htokens, hf]⟩
  have hspelled : commaList Element.tokens (fields.map .field) =
      commaList (fun c => c.1.tokens c.2) defined := by
    have htokens : (fields.map Element.field).map Element.tokens =
        defined.map fun c => c.1.tokens c.2 := by
      simpa [Function.comp_def, Element.tokens] using congrArg (List.map (·.1)) hfields
    exact commaList_congr htokens
  have hmeant : fields.map (·.column) = defined.map (·.1) := by
    simpa [Function.comp_def] using congrArg (List.map (·.2)) hfields
  have hbegins : (fields.map Element.field).head?.any Element.isField = true := by
    cases fields with
    | nil => exact absurd (List.map_eq_nil_iff.mp hfields.symm) hne
    | cons f fields => rfl
  refine ⟨⟨⟨table, htable.identifier⟩, fields.map .field, hbegins⟩, rfl, ?_, ?_⟩
  · rw [Definition.tokens, hspelled]
    rfl
  · rw [columns?, foldlM_build_fields, hmeant, List.nil_append]

theorem Statement.exists_writtenAs_createTable {table : String} {columns : List Column}
    (htable : PlainName table) (hne : columns ≠ []) (h : ∀ c ∈ columns, c.Expressible) :
    ∃ ts, WrittenAs { kind := .createTable, tables := [table], columns } ts := by
  obtain ⟨defined, rfl, hdefined⟩ := exists_clauses h
  have hdefined_ne : defined ≠ [] := by
    rintro rfl
    exact hne rfl
  refine ⟨tableTokens table defined, ?_, ?_⟩
  · have hcolumns : Sayable (commaList (fun c => c.1.tokens c.2) defined) := by
      refine sayable_commaList fun c hc => ?_
      obtain ⟨hcolumn, hclauses, -⟩ := hdefined c hc
      exact sayable_column hcolumn.name hcolumn.typed hclauses
    exact (shut_keyword rfl).append_sayable
      ((sayable_name htable).append_free (free_bracketed hcolumns))
  · obtain ⟨D, rfl, htokens, hcolumns⟩ := exists_definition htable hdefined_ne fun c hc => by
      obtain ⟨hcolumn, hclauses, hfold⟩ := hdefined c hc
      exact exists_field hcolumn.name hcolumn.typed hclauses hfold
    rw [← htokens]
    exact ((Draft.settles_definition D).brings _ hcolumns).ended rfl

end SqlReader
