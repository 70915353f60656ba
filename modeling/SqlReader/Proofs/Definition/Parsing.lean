import SqlReader.Proofs.Verdict
import SqlReader.Proofs.Writing

/-!
# Parsing table definitions

The language of table definitions says which tokens a definition may have.  Each
part of the language is read back into a tree that is spelled by these tokens.
So every text that defines a table has a tree, and the statement of the text has
the columns that the tree means.
-/

namespace SqlReader

namespace Sentence

open Definition
open scoped Computability

variable {α : Type} {item : α → List Token} {A B : Language Token} {w : List Token}

/-! ## Repetition -/

theorem exists_of_mem_kstar (h : ∀ u ∈ A, ∃ a, item a = u) (hw : w ∈ A∗) :
    ∃ as : List α, as.flatMap item = w := by
  obtain ⟨parts, rfl, hparts⟩ := Language.mem_kstar.mp hw
  have hrange : parts ∈ Set.range (List.map item) := by
    rw [Set.range_list_map]
    exact fun u hu => h u (hparts u hu)
  obtain ⟨as, rfl⟩ := hrange
  exact ⟨as, List.flatMap_def⟩

theorem exists_of_mem_kw_mul {k : Keyword} (hw : w ∈ kw k * A) :
    ∃ u ∈ A, w = .keyword k :: u := by
  obtain ⟨_, ⟨t, rfl, rfl⟩, u, hu, rfl⟩ := Language.mem_mul.mp hw
  exact ⟨u, hu, rfl⟩

theorem exists_of_mem_parens (hw : w ∈ parens A) : ∃ u ∈ A, w = bracketed u := by
  obtain ⟨v, hv, _, ⟨t, rfl, rfl⟩, rfl⟩ := Language.mem_mul.mp hw
  obtain ⟨u, hu, rfl⟩ := exists_of_mem_kw_mul hv
  exact ⟨u, hu, rfl⟩

theorem exists_of_mem_listOf (h : ∀ u ∈ A, ∃ a, item a = u) (hw : w ∈ listOf A) :
    ∃ a as, w = commaList item (a :: as) := by
  obtain ⟨u, hu, v, hv, rfl⟩ := Language.mem_mul.mp hw
  obtain ⟨a, rfl⟩ := h u hu
  have hitem : ∀ u ∈ kw .comma * A, ∃ a, .keyword .comma :: item a = u := by
    intro u hu
    obtain ⟨v, hv, rfl⟩ := exists_of_mem_kw_mul hu
    obtain ⟨a, rfl⟩ := h v hv
    exact ⟨a, rfl⟩
  obtain ⟨as, rfl⟩ := exists_of_mem_kstar hitem hv
  exact ⟨a, as, rfl⟩

/-! ## Names, values and conditions -/

theorem exists_of_mem_name (hw : w ∈ name) : ∃ n : Name, [n.token] = w := by
  obtain ⟨_, ⟨s, rfl, hs⟩, rfl⟩ := hw
  exact ⟨⟨s, hs⟩, rfl⟩

theorem exists_of_mem_value (hw : w ∈ value) : ∃ v : Value, [v.token] = w := by
  obtain ⟨t, ht, rfl⟩ := hw
  obtain ⟨s, hs⟩ := isValue_iff.mp ht
  exact ⟨⟨t, s, hs⟩, rfl⟩

theorem exists_comparison {k : Keyword} (hk : k ∈ comparisons) (v : Value) :
    ∃ t : Test, t.tokens = [.keyword k, v.token] := by
  simp only [comparisons, List.mem_cons, List.not_mem_nil, or_false] at hk
  rcases hk with rfl | rfl | rfl | rfl | rfl | rfl | rfl | rfl
  · exact ⟨.compare .eq rfl v, rfl⟩
  · exact ⟨.compare .ne rfl v, rfl⟩
  · exact ⟨.compare .gt rfl v, rfl⟩
  · exact ⟨.compare .lt rfl v, rfl⟩
  · exact ⟨.compare .gte rfl v, rfl⟩
  · exact ⟨.compare .lte rfl v, rfl⟩
  · exact ⟨.like false v, rfl⟩
  · exact ⟨.like true v, rfl⟩

theorem exists_of_mem_checkOperation (hw : w ∈ checkOperation) : ∃ t : Test, t.tokens = w := by
  rcases hw with hw | hw
  · obtain ⟨_, ⟨_, ⟨k, hk, rfl⟩, rfl⟩, u, hu, rfl⟩ := Language.mem_mul.mp hw
    obtain ⟨v, rfl⟩ := exists_of_mem_value hu
    exact exists_comparison hk v
  · obtain ⟨_, ⟨_, ⟨k, hk, rfl⟩, rfl⟩, u, hu, rfl⟩ := Language.mem_mul.mp hw
    obtain ⟨values, hvalues, rfl⟩ := exists_of_mem_parens hu
    obtain ⟨v, vs, rfl⟩ := exists_of_mem_listOf (fun u => exists_of_mem_value) hvalues
    simp only [List.mem_cons, List.not_mem_nil, or_false] at hk
    rcases hk with rfl | rfl
    · exact ⟨.inList false v vs, rfl⟩
    · exact ⟨.inList true v vs, rfl⟩

theorem exists_of_mem_checkCondition (hw : w ∈ checkCondition) : ∃ t : Term, t.tokens = w := by
  obtain ⟨u, hu, v, hv, rfl⟩ := Language.mem_mul.mp hw
  obtain ⟨n, rfl⟩ := exists_of_mem_name hu
  obtain ⟨t, rfl⟩ := exists_of_mem_checkOperation hv
  exact ⟨⟨n, t⟩, rfl⟩

theorem exists_of_mem_chain {first : Language Token} (h : ∀ u ∈ first, ∃ t : Term, t.tokens = u)
    (hw : w ∈ chain first checkCondition) : ∃ c : Chain, c.tokens = w := by
  obtain ⟨u, hu, v, hv, rfl⟩ := Language.mem_mul.mp hw
  obtain ⟨t, rfl⟩ := h u hu
  have hlink : ∀ u ∈ anyOf [.and, .or] * checkCondition, ∃ link, Chain.linkTokens link = u := by
    intro u hu
    obtain ⟨_, ⟨_, ⟨k, hk, rfl⟩, rfl⟩, v, hv, rfl⟩ := Language.mem_mul.mp hu
    obtain ⟨t, rfl⟩ := exists_of_mem_checkCondition hv
    simp only [List.mem_cons, List.not_mem_nil, or_false] at hk
    rcases hk with rfl | rfl
    · exact ⟨(.and, t), rfl⟩
    · exact ⟨(.or, t), rfl⟩
  obtain ⟨links, rfl⟩ := exists_of_mem_kstar hlink hv
  exact ⟨⟨t, links⟩, rfl⟩

/-! ## Elements -/

theorem exists_of_mem_target (hw : w ∈ target) :
    ∃ t u : Name, InlineClause.targetTokens t u = w := by
  obtain ⟨before, hbefore, after, hafter, rfl⟩ := Language.mem_mul.mp hw
  obtain ⟨table, htable, rfl⟩ := exists_of_mem_kw_mul hbefore
  obtain ⟨t, rfl⟩ := exists_of_mem_name htable
  obtain ⟨column, hcolumn, rfl⟩ := exists_of_mem_parens hafter
  obtain ⟨u, rfl⟩ := exists_of_mem_name hcolumn
  exact ⟨t, u, rfl⟩

theorem exists_of_mem_columnConstraint (hw : w ∈ columnConstraint) :
    ∃ c : InlineClause, c.tokens = w := by
  rcases hw with ((hw | hw) | hw) | hw
  · obtain ⟨_, ⟨k, hk, rfl⟩, rfl⟩ := hw
    simp only [List.mem_cons, List.not_mem_nil, or_false] at hk
    rcases hk with rfl | rfl | rfl
    · exact ⟨.notNull, rfl⟩
    · exact ⟨.unique, rfl⟩
    · exact ⟨.primaryKey, rfl⟩
  · obtain ⟨u, hu, rfl⟩ := exists_of_mem_kw_mul hw
    obtain ⟨v, rfl⟩ := exists_of_mem_value hu
    exact ⟨.default v, rfl⟩
  · obtain ⟨u, hu, rfl⟩ := exists_of_mem_kw_mul hw
    obtain ⟨conditions, hconditions, rfl⟩ := exists_of_mem_parens hu
    obtain ⟨c, rfl⟩ := exists_of_mem_chain (fun u => exists_of_mem_checkCondition) hconditions
    exact ⟨.check c, rfl⟩
  · obtain ⟨t, u, rfl⟩ := exists_of_mem_target hw
    exact ⟨.references t u, rfl⟩

theorem exists_of_mem_length (hw : w ∈ maybe (parens typeLength)) :
    ∃ l : Option Length, Field.lengthTokens l = w := by
  rcases hw with hw | hw
  · exact ⟨none, hw.symm⟩
  · obtain ⟨_, ⟨_, ⟨s, n, rfl, hn, hlt⟩, rfl⟩, rfl⟩ := exists_of_mem_parens hw
    have hlength : Draft.columnLength? (.word s) = some n.toUInt32 := by
      have hsize : n < UInt32.size := hlt
      simp only [Draft.columnLength?, hn, Option.bind_eq_bind, Option.bind_some, Text.word32?,
        if_pos hsize]
    exact ⟨some ⟨s, n.toUInt32, hlength⟩, rfl⟩

theorem exists_of_mem_columnType {s : String} (hs : isIdentifier s = true)
    (hw : w ∈ columnType) : ∃ f : Field, f.tokens = .word s :: w := by
  obtain ⟨before, hbefore, after, hafter, rfl⟩ := Language.mem_mul.mp hw
  obtain ⟨_, ⟨_, ⟨type, rfl, htype⟩, rfl⟩, u, hu, rfl⟩ := Language.mem_mul.mp hbefore
  obtain ⟨length, rfl⟩ := exists_of_mem_length hu
  obtain ⟨clauses, rfl⟩ := exists_of_mem_kstar (fun u => exists_of_mem_columnConstraint) hafter
  exact ⟨⟨⟨s, hs⟩, type, htype, length, clauses⟩, by simp [Field.tokens, Name.token]⟩

theorem exists_of_mem_nameIn {names : List String} (hnames : ∀ s ∈ names, isIdentifier s = true)
    (hw : w ∈ nameIn names) : ∃ n : Name, [n.token] = w := by
  obtain ⟨_, ⟨s, hs, rfl⟩, rfl⟩ := hw
  exact ⟨⟨s, hnames s hs⟩, rfl⟩

theorem exists_of_mem_tableConstraint {names : List String}
    (hnames : ∀ s ∈ names, isIdentifier s = true) (hw : w ∈ tableConstraint names) :
    ∃ c : TableClause, c.tokens = w := by
  rcases hw with (hw | hw) | hw
  · obtain ⟨u, hu, rfl⟩ := exists_of_mem_kw_mul hw
    obtain ⟨columns, hcolumns, rfl⟩ := exists_of_mem_parens hu
    obtain ⟨n, ns, rfl⟩ := exists_of_mem_listOf (fun u => exists_of_mem_nameIn hnames) hcolumns
    exact ⟨.primaryKey n ns, rfl⟩
  · obtain ⟨before, hbefore, after, hafter, rfl⟩ := Language.mem_mul.mp hw
    obtain ⟨u, hu, rfl⟩ := exists_of_mem_kw_mul hbefore
    obtain ⟨column, hcolumn, rfl⟩ := exists_of_mem_parens hu
    obtain ⟨n, rfl⟩ := exists_of_mem_nameIn hnames hcolumn
    obtain ⟨t, u, rfl⟩ := exists_of_mem_target hafter
    exact ⟨.foreignKey n t u, rfl⟩
  · obtain ⟨u, hu, rfl⟩ := exists_of_mem_kw_mul hw
    obtain ⟨conditions, hconditions, rfl⟩ := exists_of_mem_parens hu
    have hfirst : ∀ u ∈ nameIn names * checkOperation, ∃ t : Term, t.tokens = u := by
      intro u hu
      obtain ⟨column, hcolumn, test, htest, rfl⟩ := Language.mem_mul.mp hu
      obtain ⟨n, rfl⟩ := exists_of_mem_nameIn hnames hcolumn
      obtain ⟨t, rfl⟩ := exists_of_mem_checkOperation htest
      exact ⟨⟨n, t⟩, rfl⟩
    obtain ⟨c, rfl⟩ := exists_of_mem_chain hfirst hconditions
    exact ⟨.check c, rfl⟩

theorem Elements.exists_elements {names : List String} (h : Elements names w)
    (hnames : ∀ s ∈ names, isIdentifier s = true) :
    ∃ es : List Element,
      (es.flatMap fun e => .keyword .comma :: e.tokens) ++ [.keyword .rightParen] = w := by
  induction h with
  | close => exact ⟨[], rfl⟩
  | @column names s definition rest hs hdefinition hrest ih =>
      have hnames' : ∀ t ∈ names ++ [s], isIdentifier t = true := by
        simpa [or_imp, forall_and, hs] using hnames
      obtain ⟨es, rfl⟩ := ih hnames'
      obtain ⟨f, hf⟩ := exists_of_mem_columnType hs hdefinition
      exact ⟨.field f :: es, by simp [Element.tokens, hf]⟩
  | constraint hclause hrest ih =>
      obtain ⟨es, rfl⟩ := ih hnames
      obtain ⟨c, rfl⟩ := exists_of_mem_tableConstraint hnames hclause
      exact ⟨.clause c :: es, by simp [Element.tokens]⟩

theorem exists_definition_of_mem (hw : w ∈ createTable) : ∃ D : Definition, D.tokens = w := by
  obtain ⟨opening, hopening, body, hbody, rfl⟩ := Language.mem_mul.mp hw
  obtain ⟨heading, hheading, _, ⟨_, rfl, rfl⟩, rfl⟩ := Language.mem_mul.mp hopening
  obtain ⟨u, hu, rfl⟩ := exists_of_mem_kw_mul hheading
  obtain ⟨table, rfl⟩ := exists_of_mem_name hu
  obtain ⟨s, hbody⟩ := Language.mem_iSup.mp hbody
  obtain ⟨first, hfirst, others, hothers, rfl⟩ := Language.mem_mul.mp hbody
  obtain ⟨_, ⟨_, ⟨rfl, hs⟩, rfl⟩, definition, hdefinition, rfl⟩ := Language.mem_mul.mp hfirst
  obtain ⟨f, hf⟩ := exists_of_mem_columnType hs hdefinition
  obtain ⟨es, rfl⟩ := Elements.exists_elements hothers (by simpa using hs)
  refine ⟨⟨table, .field f :: es, rfl⟩, ?_⟩
  simp [Definition.tokens, bracketed, commaList, Element.tokens, hf]

/-- The sentences of one kind of statement. -/
def ofKind : Kind → Language Token
  | .unknown => 0
  | .select => select
  | .insert => Sentence.insert
  | .update => update
  | .delete => delete
  | .createTable => createTable
  | .createView => createView
  | .createIndex => createIndex
  | .createUser => createUser
  | .grant => grant
  | .revoke => revoke

def opening : Kind → Option Keyword
  | .unknown => none
  | .select => some .select
  | .insert => some .insertInto
  | .update => some .update
  | .delete => some .deleteFrom
  | .createTable => some .createTable
  | .createView => some .createView
  | .createIndex => some .createIndex
  | .createUser => some .createUser
  | .grant => some .grant
  | .revoke => some .revoke

theorem opening_of_opening? {k : Keyword} {kind : Kind} {state : State}
    (h : Draft.opening? k = some (kind, state)) : opening kind = some k := by
  cases k <;> simp only [Draft.opening?, Option.some.injEq, Prod.mk.injEq, reduceCtorEq] at h <;>
    obtain ⟨rfl, rfl⟩ := h <;> rfl

/-- The first word of a sentence decides its kind. -/
theorem mem_ofKind {kind : Kind} {k : Keyword} {ts : List Token} (hk : opening kind = some k)
    (h : .keyword k :: ts ∈ sentence) : .keyword k :: ts ∈ ofKind kind := by
  cases kind with
  | unknown => cases hk
  | _ =>
      obtain rfl := Option.some.inj hk
      simpa only [ofKind, sentence, select, Sentence.insert, update, delete, createTable,
        createView, createIndex, createUser, grant, revoke, Language.mem_add, insertInto,
        Language.mem_iSup, mul_assoc, cons_mem_kw_mul, Token.keyword?, Option.some.injEq,
        reduceCtorEq, false_and, exists_false, false_or, or_false] using h

end Sentence

/-! ## Texts -/

namespace Draft

variable {d d' : Draft} {ts : List Token}

/-- The verdict on tokens one of which breaks a rule. -/
theorem judge_of_run_breaks {reason : Reason} (h : d.run ts = .error (.breaks reason)) :
    ∃ index state, d.judge ts = .refused index state (.breaks reason) := by
  induction ts generalizing d with
  | nil => cases h
  | cons t ts ih =>
      rw [Draft.run] at h
      split at h
      · cases h
      next hquery =>
        rw [judge]
        cases haccept : d.accept t [] with
        | error refusal =>
            rw [haccept] at h
            obtain rfl := Except.error.inj h
            exact ⟨0, d.state, rfl⟩
        | ok d' =>
            rw [haccept] at h
            obtain ⟨index, state, hjudge⟩ := ih h
            refine ⟨index + 1, state, ?_⟩
            simp only [if_neg hquery, hjudge]
            rfl

end Draft

namespace Parser

variable {settings : Settings} {text : String} {s : Statement}

/-- Once it is known, the kind of a statement stays. -/
theorem kind_of_steps {p q : Parser} {ts : List Token} (h : Steps p ts q) (hp : p.Sound)
    (hkind : p.draft.statement.kind ≠ .unknown) :
    q.draft.statement.kind = p.draft.statement.kind := by
  refine (h.preserves (P := fun r =>
    r.Sound ∧ r.draft.statement.kind = p.draft.statement.kind) ?_ ⟨hp, rfl⟩).2
  rintro a b ⟨ha, hsame⟩ - hstep
  obtain ⟨d, haccept, rfl⟩ := step_eq_ok_iff.mp hstep
  have hedited := Draft.accept_editedBy ha.1 d haccept
  refine ⟨ha.step hstep, ?_⟩
  rw [hedited.kind.resolve_left (by rwa [hsame]), hsame]

/-- The first token of a text says what kind of statement it is. -/
theorem exists_tokensLeft (hs : parseOne settings text = .ok s) :
    ∃ k ts, Sentence.opening s.kind = some k ∧
      (ofText settings text).tokensLeft = .keyword k :: ts := by
  obtain ⟨-, ts, q, hsteps, hend, hfinish⟩ := parse_eq_ok_iff.mp hs
  obtain ⟨haccepting, -, rfl⟩ := finish_eq_ok_iff.mp hfinish
  cases hsteps with
  | refl => cases haccepting
  | @head _ r _ ts hlive hstep hrest =>
      have hsound := (sound_ofText settings text).step hstep
      obtain ⟨d, haccept, rfl⟩ := step_eq_ok_iff.mp hstep
      have hbegin : (ofText settings text).draft.move? (ofText settings text).cursor.peek
          (ofText settings text).cursor.rest = Move.begin (ofText settings text).cursor.peek := rfl
      obtain ⟨m, draft, hmove, happly, rfl⟩ := Draft.follow_eq_ok_iff.mp haccept
      rw [hbegin] at hmove
      obtain ⟨⟨kind, state⟩, hopening, rfl⟩ := Option.map_eq_some_iff.mp hmove
      obtain rfl := Except.ok.inj happly
      obtain ⟨k, hk, hopening⟩ := Option.bind_eq_some_iff.mp hopening
      have hword := Sentence.opening_of_opening? hopening
      have hknown : kind ≠ .unknown := by
        rintro rfl
        cases hword
      have hsame := kind_of_steps hrest hsound hknown
      rw [tokensLeft_of_not_atEnd hlive, Sentence.keyword?_eq_some_iff.mp hk, hsame]
      exact ⟨k, _, hword, rfl⟩

/-- The tokens of an accepted text are a sentence of the kind of its statement. -/
theorem tokensLeft_mem_ofKind (hs : parseOne settings text = .ok s) :
    (ofText settings text).tokensLeft ∈ Sentence.ofKind s.kind := by
  have hsentence := (exists_parseOne_iff.mp ⟨s, hs⟩).2
  obtain ⟨k, ts, hk, hts⟩ := exists_tokensLeft hs
  rw [hts] at hsentence ⊢
  exact Sentence.mem_ofKind hk hsentence

end Parser

namespace Definition

open SqlReader.Parser

variable {D : Definition} {settings : Settings} {text : String} {s : Statement}
  {columns : List Column}

/-- The part of the text that is read spells the definition. -/
def WrittenIn (D : Definition) (settings : Settings) (text : String) : Prop :=
  (tokenize (String.ofList (cursorText settings text))).map (·.2) = D.tokens

instance : Decidable (D.WrittenIn settings text) := inferInstanceAs (Decidable (_ = _))

theorem WrittenIn.tokensLeft_eq (h : D.WrittenIn settings text) :
    (ofText settings text).tokensLeft = D.tokens := by
  rw [tokensLeft_ofText, h]

theorem WrittenIn.parseOne_eq (h : D.WrittenIn settings text)
    (hlimit : WithinLimit settings text) (hcolumns : D.columns? = some columns) :
    parseOne settings text = .ok (Draft.withColumns D.table.text columns) := by
  have hreads : Reads (ofText settings text).cursor.rest D.tokens [] := by
    rw [← h.tokensLeft_eq]
    exact Cursor.reads_tokens _
  obtain ⟨d, hrun, hd⟩ := (Draft.settles_definition D).brings columns hcolumns {} ⟨rfl, rfl⟩
  obtain ⟨q, hsteps, rfl, hrest⟩ := steps_of_run hreads hrun
  have hended : q.draft.Ended (Draft.withColumns D.table.text columns) :=
    ⟨by rw [hd.state_eq]; rfl, hd.statement_eq⟩
  refine hsteps.parseOne_eq (by simp [Cursor.atEnd, hrest]) hlimit hended ?_
  rintro ⟨hkind, -⟩
  simp [Draft.withColumns] at hkind

/-- A definition that is accepted means the columns of the statement. -/
theorem WrittenIn.exists_columns (h : D.WrittenIn settings text)
    (hs : parseOne settings text = .ok s) :
    ∃ columns, D.columns? = some columns ∧ s = Draft.withColumns D.table.text columns := by
  have hlimit : (ofText settings text).tooLong = false := (parse_eq_ok_iff.mp hs).1
  cases hcolumns : D.columns? with
  | some columns =>
      have hparse := h.parseOne_eq (tooLong_eq_false_iff.mp hlimit) hcolumns
      exact ⟨columns, rfl, Except.ok.inj (hs.symm.trans hparse)⟩
  | none =>
      -- a clause that names no column breaks a rule, so the text is not accepted
      obtain ⟨reason, hrun⟩ := (Draft.settles_definition D).refuses hcolumns {} ⟨rfl, rfl⟩
      obtain ⟨index, state, hjudge⟩ := Draft.judge_of_run_breaks hrun
      have htold := judge_told (p := ofText settings text) rfl (Cursor.placed_ofText _)
      rw [← outcome_eq_answer hlimit, h.tokensLeft_eq] at htold
      rw [show (ofText settings text).draft.judge D.tokens = _ from hjudge] at htold
      rw [show (ofText settings text).parse.outcome = .ok s from hs] at htold
      cases htold

/-- Every text that is read as a table definition has a tree. -/
theorem exists_writtenIn (hs : parseOne settings text = .ok s) (hkind : s.kind = .createTable) :
    ∃ D : Definition, D.WrittenIn settings text := by
  have hmem := tokensLeft_mem_ofKind hs
  rw [hkind] at hmem
  obtain ⟨D, hD⟩ := Sentence.exists_definition_of_mem hmem
  refine ⟨D, ?_⟩
  rw [WrittenIn, ← tokensLeft_ofText, hD]

end Definition

end SqlReader
