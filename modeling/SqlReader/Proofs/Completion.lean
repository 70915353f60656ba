import SqlReader.Proofs.Residual.Basic
import SqlReader.Proofs.Spelling

/-!
# Completing a statement

From almost every state a statement can be completed, with tokens that can be
written behind the text that was read.  The only exception are the rows of an
insertion that are already too long.
-/

namespace SqlReader

open Sentence
open scoped Computability

/-- Some member of the language can be written behind any token. -/
def Completable (A : Language Token) : Prop := ∃ ts ∈ A, Free ts

/-- Whether the reserved word is also the end of a phrase. -/
def Keyword.closes : Keyword → Bool
  | .fromClause | .inList | .like | .between => true
  | _ => false

theorem closesPhrase_of_mem : ∀ e ∈ vocabulary, e.keyword.closes = false →
    closesPhrase (Token.keyword e.keyword).firstWord = false := by
  decide

theorem closesPhrase_keyword {k : Keyword} (h : k.closes = false) :
    closesPhrase (Token.keyword k).firstWord = false := by
  obtain ⟨e, he, rfl⟩ := List.mem_map.mp (mem_keywords k)
  exact closesPhrase_of_mem e he h

section Completable

variable {A B : Language Token} {P : Token → Prop} {t : Token} {ts : List Token}

theorem Completable.mono (h : Completable A) (hsub : ∀ ts ∈ A, ts ∈ B) : Completable B := by
  obtain ⟨ts, hts, hfree⟩ := h
  exact ⟨ts, hsub ts hts, hfree⟩

theorem Completable.mul (hA : Completable A) (hB : Completable B) : Completable (A * B) := by
  obtain ⟨ts, hts, hfree⟩ := hA
  obtain ⟨us, hus, hfree'⟩ := hB
  exact ⟨ts ++ us, Language.append_mem_mul hts hus, hfree.append hfree'⟩

theorem Completable.inl (h : Completable A) : Completable (A + B) :=
  h.mono fun _ hts => (Language.mem_add ..).mpr (.inl hts)

theorem completable_empty : Completable 1 := ⟨[], rfl, .nil⟩

theorem completable_kstar : Completable (A∗) := ⟨[], Language.nil_mem_kstar A, .nil⟩

theorem completable_maybe : Completable (maybe A) := completable_empty.inl

theorem Completable.pow (h : Completable A) (n : Nat) : Completable (A ^ n) := by
  induction n with
  | zero => exact completable_empty
  | succ n ih =>
      rw [pow_succ]
      exact ih.mul h

theorem Completable.iSup {ι : Type} {F : ι → Language Token} (i : ι) (h : Completable (F i)) :
    Completable (⨆ i, F i) :=
  h.mono fun _ hts => (Language.mem_iSup).mpr ⟨i, hts⟩

/-! ## Single tokens -/

theorem completable_one (ht : P t) (hspelled : t.Spelled)
    (hcloses : closesPhrase t.firstWord = false) : Completable (one P) :=
  ⟨[t], ⟨t, ht, rfl⟩, .singleton hspelled hcloses⟩

theorem completable_kw {k : Keyword} (h : k.closes = false) : Completable (kw k) :=
  completable_one rfl (spelled_keyword k) (closesPhrase_keyword h)

theorem completable_anyOf {k : Keyword} {ks : List Keyword} (hk : k ∈ ks)
    (h : k.closes = false) : Completable (anyOf ks) :=
  completable_one ⟨k, hk, rfl⟩ (spelled_keyword k) (closesPhrase_keyword h)

def fillers : List String := ["x", "INT", "1"]

theorem filler_of_mem : ∀ s ∈ fillers, IsWord s.toList ∧ reserved? [s.toList] = none ∧
    closesPhrase (Token.word s).firstWord = false := by
  decide

theorem isIdentifier_x : isIdentifier "x" = true := by
  decide

theorem completable_filler {s : String} (hs : s ∈ fillers) (h : P (.word s)) :
    Completable (one P) := by
  obtain ⟨hword, hplain, hcloses⟩ := filler_of_mem s hs
  exact completable_one h (spelled_word hword hplain) hcloses

theorem completable_name : Completable name :=
  completable_filler (s := "x") (by simp [fillers]) ⟨"x", rfl, isIdentifier_x⟩

theorem completable_value : Completable value :=
  completable_filler (s := "x") (by simp [fillers])
    (.inr ⟨"x", rfl, (isWord_of_isIdentifier isIdentifier_x).2⟩)

theorem completable_typeName : Completable typeName :=
  completable_filler (s := "INT") (by simp [fillers]) ⟨"INT", rfl, by decide⟩

theorem completable_typeLength : Completable typeLength :=
  completable_filler (s := "1") (by simp [fillers]) ⟨"1", 1, rfl, by decide, by decide⟩

/-! ## Parts of statements -/

theorem Completable.parens (h : Completable A) : Completable (parens A) :=
  ((completable_kw rfl).mul h).mul (completable_kw rfl)

theorem Completable.listOf (h : Completable A) : Completable (listOf A) := h.mul completable_kstar

theorem Completable.listOfSucc (h : Completable A) (n : Nat) : Completable (listOfSucc A n) :=
  h.mul (((completable_kw rfl).mul h).pow n)

theorem completable_checkOperation : Completable checkOperation :=
  ((completable_anyOf (k := .equal) (by simp [comparisons]) rfl).mul completable_value).inl

theorem completable_operation : Completable operation := completable_checkOperation.inl

theorem completable_condition : Completable condition := completable_name.mul completable_operation

theorem completable_filter : Completable filter :=
  (completable_kw rfl).mul (completable_condition.mul completable_kstar)

theorem completable_afterFilter {kind : Kind} : Completable (afterFilter kind) := by
  apply completable_kstar.mul
  split
  · exact completable_maybe
  · exact completable_empty

theorem completable_assignment : Completable assignment :=
  (completable_name.mul (completable_kw rfl)).mul completable_value

theorem completable_sorted : Completable sorted := completable_name.mul completable_maybe

theorem completable_target : Completable target :=
  ((completable_kw rfl).mul completable_name).mul completable_name.parens

theorem completable_columnType : Completable columnType :=
  (completable_typeName.mul completable_maybe).mul completable_kstar

theorem completable_elements {names : List String} : Completable (elements names) :=
  ⟨[.keyword .rightParen], .close, .singleton (spelled_keyword _) (closesPhrase_keyword rfl)⟩

theorem completable_fromColumn {names : List String} : Completable (fromColumn names) :=
  .iSup "x" (((completable_filler (s := "x") (by simp [fillers]) ⟨rfl, isIdentifier_x⟩).mul
    completable_columnType).mul completable_elements)

theorem completable_viewQuery : Completable viewQuery :=
  (completable_kw rfl).mul ⟨[], trivial, .nil⟩

theorem completable_privilege : Completable privilege :=
  (completable_anyOf (k := .select) (by simp) rfl).mul completable_maybe

/-! ## Words that end a phrase

`FROM` is written behind a name, and a defined column behind a parenthesis. -/

def Writable (A : Language Token) : Prop := ∃ ts ∈ A, Sayable ts

theorem Completable.writable (h : Completable A) : Writable A := by
  obtain ⟨ts, hts, hfree⟩ := h
  exact ⟨ts, hts, hfree.toSayable⟩

theorem Writable.mul (hA : Writable A) (hB : Completable B) : Writable (A * B) := by
  obtain ⟨ts, hts, hsay⟩ := hA
  obtain ⟨us, hus, hfree⟩ := hB
  exact ⟨ts ++ us, Language.append_mem_mul hts hus, hsay.append_free hfree⟩

theorem Sayable.paren (h : Sayable ts) : Free (.keyword .leftParen :: ts) := by
  refine ⟨⟨?_, List.isChain_cons.mpr ⟨?_, h.apart⟩⟩, ?_⟩
  · intro t ht
    rcases List.mem_cons.mp ht with rfl | ht
    · exact spelled_keyword _
    · exact h.spelled t ht
  · intro t _
    exact reserved?_pair_eq_none (by decide)
  · intro t ht
    obtain rfl := Option.some.inj ht
    exact closesPhrase_keyword rfl

theorem mem_kw (k : Keyword) : [.keyword k] ∈ kw k := ⟨_, rfl, rfl⟩

theorem Writable.paren (h : Writable A) : Completable (kw .leftParen * A) := by
  obtain ⟨ts, hts, hsay⟩ := h
  exact ⟨_, Language.append_mem_mul (mem_kw _) hts, hsay.paren⟩

theorem writable_nameIn {names : List String} {s : String} (hs : s ∈ names)
    (hplain : PlainName s) : Writable (nameIn names) := by
  refine ⟨[.word s], ⟨.word s, ⟨s, hs, rfl⟩, rfl⟩, ?_, .singleton _⟩
  simpa using spelled_of_plainName hplain

theorem free_name_from : Free [.word "x", .keyword .fromClause] := by
  obtain ⟨hword, hplain, hcloses⟩ := filler_of_mem "x" (by simp [fillers])
  refine ⟨⟨?_, ?_⟩, ?_⟩
  · simp [spelled_keyword, spelled_word hword hplain]
  · simp only [List.isChain_cons_cons, List.isChain_singleton, and_true]
    decide
  · simpa using hcloses

theorem free_comma : Free [.keyword .comma] :=
  .singleton (spelled_keyword _) (closesPhrase_keyword rfl)

section From

variable {item : Language Token}

theorem completable_more_from (hitem : [.word "x"] ∈ item) :
    Completable ((kw .comma * item)∗ * kw .fromClause) := by
  have hmore : [.keyword .comma, .word "x"] ∈ (kw .comma * item)∗ :=
    le_kstar (a := kw .comma * item) (Language.append_mem_mul (mem_kw .comma) hitem)
  exact ⟨_, Language.append_mem_mul hmore (mem_kw _), free_comma.append free_name_from⟩

theorem completable_list_from (hitem : [.word "x"] ∈ item) :
    Completable (listOf item * kw .fromClause) := by
  have hlist : [.word "x"] ∈ listOf item :=
    Language.append_mem_mul hitem (Language.nil_mem_kstar _)
  exact ⟨_, Language.append_mem_mul hlist (mem_kw _), free_name_from⟩

end From

theorem x_mem_name : [.word "x"] ∈ name := ⟨_, ⟨"x", rfl, isIdentifier_x⟩, rfl⟩

theorem x_mem_selected : [.word "x"] ∈ selected := (Language.mem_add ..).mpr (.inl x_mem_name)

end Completable

/-! ## All states -/

theorem completable_clauses : Completable clauses := completable_maybe.mul completable_maybe

theorem completable_names : Completable (listOf name) := completable_name.listOf

theorem completable_values : Completable (listOf value) := completable_value.listOf

theorem completable_selectRest (place : SelectPlace) : Completable (selectRest place) := by
  cases place with
  | field =>
      exact ((completable_list_from x_mem_selected).mul completable_names).mul completable_clauses
  | commaOrFrom =>
      exact ((completable_more_from x_mem_selected).mul completable_names).mul completable_clauses
  | table => exact completable_names.mul completable_clauses
  | commaOrClause => exact completable_kstar.mul completable_clauses

theorem completable_orderRest (place : OrderPlace) : Completable (orderRest place) := by
  cases place with
  | field => exact completable_sorted.listOf
  | directionOrComma => exact completable_maybe.mul completable_kstar
  | comma => exact completable_kstar

theorem completable_row (n : Nat) : Completable (parens (listOfSucc value n)) :=
  (completable_value.listOfSucc n).parens

theorem completable_allRows (width : Nat) : Completable (allRows width) :=
  (completable_row _).mul completable_kstar

/-- The row being read has more values than there are columns, or is about to. -/
def Context.Overfull (c : Context) : InsertPlace → Prop
  | .value => c.width ≤ c.filled
  | .valuesNext => c.width < c.filled
  | _ => False

theorem completable_insertRest {c : Context} {place : InsertPlace} (h : ¬ c.Overfull place) :
    Completable (insertRest c place) := by
  have hvalues : Completable (kw .values) := completable_kw rfl
  have hclose : Completable (kw .rightParen) := completable_kw rfl
  cases place with
  | table =>
      exact .iSup 0 (((completable_name.mul (completable_name.listOfSucc 0).parens).mul hvalues).mul
        (completable_allRows _))
  | fieldsOpen =>
      exact .iSup 0 (((completable_name.listOfSucc 0).parens.mul hvalues).mul
        (completable_allRows _))
  | field =>
      exact .iSup 0 ((((completable_name.listOfSucc 0).mul hclose).mul hvalues).mul
        (completable_allRows _))
  | fieldsNext =>
      exact .iSup 0 ((((((completable_kw rfl).mul completable_name).pow 0).mul hclose).mul
        hvalues).mul (completable_allRows _))
  | valuesKeyword => exact hvalues.mul (completable_allRows _)
  | valuesOpen => exact completable_allRows _
  | value =>
      have hfilled : c.filled < c.width := Nat.lt_of_not_le h
      rw [insertRest, if_pos hfilled]
      exact ((completable_value.listOfSucc _).mul hclose).mul completable_kstar
  | valuesNext =>
      have hfilled : c.filled ≤ c.width := Nat.le_of_not_lt h
      rw [insertRest, if_pos hfilled]
      exact ((((completable_kw rfl).mul completable_value).pow _).mul hclose).mul completable_kstar
  | rowComma => exact completable_kstar

theorem completable_updateRest (place : UpdatePlace) : Completable (updateRest place) := by
  have hset : Completable (kw .set) := completable_kw rfl
  have hequal : Completable (kw .equal) := completable_kw rfl
  have hmore : Completable moreAssignments := completable_kstar.mul completable_filter
  cases place with
  | table =>
      exact ((completable_name.mul hset).mul completable_assignment.listOf).mul completable_filter
  | set => exact (hset.mul completable_assignment.listOf).mul completable_filter
  | field => exact completable_assignment.listOf.mul completable_filter
  | equal => exact (hequal.mul completable_value).mul hmore
  | value => exact completable_value.mul hmore
  | commaOrWhere => exact hmore

theorem completable_deleteRest (place : DeletePlace) : Completable (deleteRest place) := by
  cases place with
  | table => exact completable_name.mul completable_filter
  | whereKeyword => exact completable_filter

theorem completable_filterRest (c : Context) (place : FilterPlace) :
    Completable (filterRest c place) := by
  have hclose : Completable (kw .rightParen) := completable_kw rfl
  have hand : Completable (kw .and) := completable_kw rfl
  have hafter : Completable (afterFilter c.kind) := completable_afterFilter
  cases place with
  | field => exact completable_condition.mul hafter
  | operator => exact completable_operation.mul hafter
  | value => exact completable_value.mul hafter
  | betweenLow => exact ((completable_value.mul hand).mul completable_value).mul hafter
  | betweenAnd => exact (hand.mul completable_value).mul hafter
  | betweenHigh => exact completable_value.mul hafter
  | listOpen => exact completable_values.parens.mul hafter
  | listValue => exact (completable_values.mul hclose).mul hafter
  | listNext => exact (completable_kstar.mul hclose).mul hafter
  | conjunction => exact hafter

/-! ## Tables -/

section Table

variable {c : Context}

theorem completable_columnRest : Completable c.columnRest :=
  completable_kstar.mul completable_elements

theorem completable_constraintRest : Completable c.constraintRest := by
  unfold Context.constraintRest
  split
  · exact completable_columnRest
  · exact completable_elements

theorem completable_checkTail : Completable c.checkTail :=
  (completable_kstar.mul (completable_kw rfl)).mul completable_constraintRest

theorem completable_tableRest (c : Context) (place : TablePlace) :
    Completable (tableRest c place) := by
  have hopen : Completable (kw .leftParen) := completable_kw rfl
  have hclose : Completable (kw .rightParen) := completable_kw rfl
  have hrest : Completable c.columnRest := completable_columnRest
  cases place with
  | name => exact (completable_name.mul hopen).mul completable_fromColumn
  | opening => exact hopen.mul completable_fromColumn
  | field => exact completable_fromColumn
  | fieldType => exact completable_columnType.mul completable_elements
  | typeSuffix => exact completable_maybe.mul hrest
  | fieldLength => exact (completable_typeLength.mul hclose).mul hrest
  | lengthClose => exact hclose.mul hrest
  | columnTail => exact hrest
  | defaultValue => exact completable_value.mul hrest
  | element => exact completable_fromColumn.inl
  | constraintEnd => exact completable_elements

/-- The first condition of a check of the table names one of its columns. -/
theorem writable_checkField (hnames : Writable (nameIn c.names)) : Writable c.checkField := by
  unfold Context.checkField
  split
  · exact completable_name.writable
  · exact hnames

theorem completable_checkRest {place : CheckPlace} (hnames : Writable (nameIn c.names))
    (hfield : place = .field → c.checkBound = true) : Completable (checkRest c place) := by
  have hclose : Completable (kw .rightParen) := completable_kw rfl
  have htail : Completable c.checkTail := completable_checkTail
  cases place with
  | opening =>
      rw [checkRest, mul_assoc, mul_assoc, ← mul_assoc c.checkField]
      exact (((writable_checkField hnames).mul completable_checkOperation).mul htail).paren
  | field =>
      rw [checkRest, Context.checkField, if_pos (hfield rfl)]
      exact (completable_name.mul completable_checkOperation).mul htail
  | operator => exact completable_checkOperation.mul htail
  | value => exact completable_value.mul htail
  | listOpen => exact completable_values.parens.mul htail
  | listValue => exact (completable_values.mul hclose).mul htail
  | listNext => exact (completable_kstar.mul hclose).mul htail
  | conjunctionOrClose => exact htail

theorem writable_checkRest_field (hnames : Writable (nameIn c.names)) :
    Writable (checkRest c .field) :=
  ((writable_checkField hnames).mul completable_checkOperation).mul completable_checkTail

theorem writable_primaryKeyRest_field (hnames : Writable (nameIn c.names)) :
    Writable (primaryKeyRest c .field) :=
  ((hnames.mul completable_kstar).mul (completable_kw rfl)).mul completable_elements

theorem completable_primaryKeyRest {place : PrimaryKeyPlace} (hnames : Writable (nameIn c.names))
    (hfield : place ≠ .field) : Completable (primaryKeyRest c place) := by
  cases place with
  | opening =>
      rw [primaryKeyRest, parens, mul_assoc, mul_assoc, ← mul_assoc (listOf _)]
      exact (writable_primaryKeyRest_field hnames).paren
  | field => exact absurd rfl hfield
  | next => exact (completable_kstar.mul (completable_kw rfl)).mul completable_elements

theorem writable_foreignKeyRest_field (hnames : Writable (nameIn c.names)) :
    Writable (foreignKeyRest c .field) :=
  ((hnames.mul (completable_kw rfl)).mul completable_target).mul completable_constraintRest

theorem completable_foreignKeyRest {place : ForeignKeyPlace} (hnames : Writable (nameIn c.names))
    (hfield : place ≠ .field) : Completable (foreignKeyRest c place) := by
  have hclose : Completable (kw .rightParen) := completable_kw rfl
  have hrest : Completable c.constraintRest := completable_constraintRest
  cases place with
  | opening =>
      rw [foreignKeyRest, parens, mul_assoc, mul_assoc, mul_assoc, ← mul_assoc (kw .rightParen),
        ← mul_assoc (nameIn _), ← mul_assoc (nameIn _)]
      exact (writable_foreignKeyRest_field hnames).paren
  | field => exact absurd rfl hfield
  | close => exact (hclose.mul completable_target).mul hrest
  | references => exact completable_target.mul hrest
  | table => exact (completable_name.mul completable_name.parens).mul hrest
  | tableOpen => exact completable_name.parens.mul hrest
  | column => exact (completable_name.mul hclose).mul hrest
  | columnClose => exact hclose.mul hrest

end Table

/-! ## Views, indexes, users and privileges -/

theorem completable_viewRest (place : ViewPlace) : Completable (viewRest place) := by
  have hclose : Completable (kw .rightParen) := completable_kw rfl
  have has : Completable (kw .as) := completable_kw rfl
  cases place with
  | name => exact ((completable_name.mul completable_maybe).mul has).mul completable_viewQuery
  | columnsOrAs => exact (completable_maybe.mul has).mul completable_viewQuery
  | field => exact ((completable_names.mul hclose).mul has).mul completable_viewQuery
  | fieldsNext => exact ((completable_kstar.mul hclose).mul has).mul completable_viewQuery
  | asKeyword => exact has.mul completable_viewQuery
  | query => exact completable_viewQuery

theorem completable_indexRest (place : IndexPlace) : Completable (indexRest place) := by
  have hclose : Completable (kw .rightParen) := completable_kw rfl
  have hon : Completable (kw .on) := completable_kw rfl
  have hcolumns : Completable (listOf sorted) := completable_sorted.listOf
  cases place with
  | name => exact ((completable_name.mul hon).mul completable_name).mul hcolumns.parens
  | on => exact (hon.mul completable_name).mul hcolumns.parens
  | table => exact completable_name.mul hcolumns.parens
  | opening => exact hcolumns.parens
  | field => exact hcolumns.mul hclose
  | orderOrNext => exact (completable_maybe.mul completable_kstar).mul hclose
  | next => exact completable_kstar.mul hclose

theorem completable_userRest (place : UserPlace) : Completable (userRest place) := by
  have hby : Completable (kw .identifiedBy) := completable_kw rfl
  cases place with
  | name => exact (completable_name.mul hby).mul completable_value
  | identifiedBy => exact hby.mul completable_value
  | password => exact completable_value

section Privilege

variable {kind : Kind}

theorem completable_more_grantees (hkind : kind = .grant ∨ kind = .revoke) :
    Completable ((kw .comma * name)∗ * grantees kind) := by
  rcases hkind with rfl | rfl
  · exact completable_kstar.mul ((completable_kw rfl).mul completable_names)
  · rw [grantees, ← mul_assoc]
    exact (completable_more_from x_mem_name).mul completable_names

theorem completable_list_grantees (hkind : kind = .grant ∨ kind = .revoke) :
    Completable (listOf name * grantees kind) := by
  rcases hkind with rfl | rfl
  · exact completable_names.mul ((completable_kw rfl).mul completable_names)
  · rw [grantees, ← mul_assoc]
    exact (completable_list_from x_mem_name).mul completable_names

theorem completable_morePrivileges (hkind : kind = .grant ∨ kind = .revoke) :
    Completable (morePrivileges kind) := by
  rw [morePrivileges, mul_assoc]
  exact (completable_kstar.mul (completable_anyOf (k := .onTable) (by simp) rfl)).mul
    (completable_list_grantees hkind)

theorem completable_privilegeRest {c : Context} (hkind : c.kind = .grant ∨ c.kind = .revoke)
    (place : PrivilegePlace) : Completable (privilegeRest c place) := by
  have hclose : Completable (kw .rightParen) := completable_kw rfl
  have hmore := completable_morePrivileges hkind
  cases place with
  | action => exact completable_privilege.mul hmore
  | columnsOrNext => exact completable_maybe.mul hmore
  | column => exact (completable_names.mul hclose).mul hmore
  | columnsNext => exact (completable_kstar.mul hclose).mul hmore
  | commaOrOn => exact hmore
  | table => exact completable_list_grantees hkind
  | tablesNext => exact completable_more_grantees hkind
  | grantee => exact completable_names
  | granteeComma => exact completable_kstar

end Privilege

theorem completable_sentence : Completable sentence := by
  have hdelete : Completable Sentence.delete :=
    ((completable_kw rfl).mul completable_name).mul completable_filter
  apply hdelete.mono
  intro ts hts
  simp only [sentence, Language.mem_add, hts, or_true, true_or]

/-! ## All states -/

theorem Focus.ne_nil {i : Option Nat} {Q : Column → Prop} {cs : List Column} (h : Focus i Q cs) :
    cs ≠ [] := by
  obtain ⟨before, c, after, rfl, -⟩ := h
  simp

theorem CheckPlace.Pictured.columns_ne_nil {d : Draft} {place : CheckPlace}
    (h : place.Pictured d) : d.statement.columns ≠ [] := by
  obtain ⟨-, -, h⟩ := h
  have hpending : ∀ Q, d.CheckPending Q → d.statement.columns ≠ [] := by
    rintro Q ⟨-, before, c, after, hcolumns, -⟩
    simp [hcolumns]
  cases place with
  | opening => exact h.2.1.1
  | field =>
      rcases h with h | h
      · exact h.2.1.1
      · exact h.2.ne_nil
  | operator => exact hpending _ h
  | value => exact hpending _ h
  | listOpen => exact hpending _ h
  | listValue => exact hpending _ h
  | listNext => exact hpending _ h
  | conjunctionOrClose => exact h.2.ne_nil

theorem ForeignKeyPlace.Pictured.columns_ne_nil {d : Draft} {place : ForeignKeyPlace}
    (h : place.Pictured d) : d.statement.columns ≠ [] := by
  obtain ⟨-, h⟩ := h
  cases place with
  | opening => exact h.2.1
  | field => exact h.2.1
  | close => exact h.2.ne_nil
  | references => exact h.2.ne_nil
  | table => exact h.2.ne_nil
  | tableOpen => exact h.2.ne_nil
  | column => exact h.2.ne_nil
  | columnClose => exact h.2.1

theorem Granting.kind {privileges : List Privilege} {tables users : List String} {s : Statement}
    (h : Granting privileges tables users s) : s.kind = .grant ∨ s.kind = .revoke := by
  obtain ⟨kind, hkind, rfl⟩ := h
  exact hkind

theorem PrivilegePlace.Pictured.kind {d : Draft} {place : PrivilegePlace} (h : place.Pictured d) :
    d.statement.kind = .grant ∨ d.statement.kind = .revoke := by
  cases place with
  | action =>
      obtain ⟨_, h⟩ := h
      exact h.kind
  | table =>
      obtain ⟨_, _, _, h⟩ := h
      exact h.kind
  | tablesNext =>
      obtain ⟨_, _, _, _, h⟩ := h
      exact h.kind
  | grantee =>
      obtain ⟨_, _, _, _, _, h⟩ := h
      exact h.kind
  | granteeComma =>
      obtain ⟨_, _, _, _, _, _, h⟩ := h
      exact h.kind
  | _ =>
      obtain ⟨_, _, h⟩ := h
      exact h.kind

namespace Draft

variable {d : Draft}

/-- The next token has to be the name of a column that is defined already. -/
def NamesColumn (d : Draft) : Prop :=
  match d.state with
  | .check .field => d.checkColumn = none
  | .primaryKey .field | .foreignKey .field => True
  | _ => False

def Overfull (d : Draft) : Prop :=
  match d.state with
  | .insert place => d.context.Overfull place
  | _ => False

theorem writable_nameIn (hplain : ∀ s ∈ d.context.names, PlainName s)
    (h : d.statement.columns ≠ []) : Writable (nameIn d.context.names) := by
  obtain ⟨c, cs, hcs⟩ := List.exists_cons_of_ne_nil h
  have hc : c.name ∈ d.context.names := by simp [context, hcs]
  exact SqlReader.writable_nameIn hc (hplain _ hc)

theorem Pictured.completable (h : d.Pictured) (hplain : ∀ s ∈ d.context.names, PlainName s)
    (hroom : ¬ d.Overfull) (hnames : ¬ d.NamesColumn) : Completable d.residual := by
  unfold Pictured at h
  unfold Overfull at hroom
  unfold NamesColumn at hnames
  unfold residual
  generalize d.state = state at h hroom hnames
  cases state with
  | beginning => exact completable_sentence
  | select place => exact completable_selectRest place
  | order place => exact completable_orderRest place
  | insert place => exact completable_insertRest hroom
  | update place => exact completable_updateRest place
  | delete place => exact completable_deleteRest place
  | filter place => exact completable_filterRest _ place
  | table place => exact completable_tableRest _ place
  | check place =>
      refine completable_checkRest (writable_nameIn hplain h.columns_ne_nil) ?_
      rintro rfl
      exact Option.isSome_iff_ne_none.mpr hnames
  | primaryKey place =>
      refine completable_primaryKeyRest (writable_nameIn hplain h.2.1) ?_
      rintro rfl
      exact hnames trivial
  | foreignKey place =>
      refine completable_foreignKeyRest (writable_nameIn hplain h.columns_ne_nil) ?_
      rintro rfl
      exact hnames trivial
  | view place => exact completable_viewRest place
  | index place => exact completable_indexRest place
  | user place => exact completable_userRest place
  | privilege place => exact completable_privilegeRest h.kind place
  | done => exact completable_empty

theorem Pictured.writable (h : d.Pictured) (hplain : ∀ s ∈ d.context.names, PlainName s)
    (hnames : d.NamesColumn) : Writable d.residual := by
  unfold Pictured at h
  unfold NamesColumn at hnames
  unfold residual
  split at hnames
  next hstate =>
    rw [hstate] at h ⊢
    exact writable_checkRest_field (writable_nameIn hplain h.columns_ne_nil)
  next hstate =>
    rw [hstate] at h ⊢
    exact writable_primaryKeyRest_field (writable_nameIn hplain h.2.1)
  next hstate =>
    rw [hstate] at h ⊢
    exact writable_foreignKeyRest_field (writable_nameIn hplain h.columns_ne_nil)
  · exact hnames.elim

end Draft

end SqlReader
