import SqlReader.Proofs.Separation

/-!
# What can be said

The statements that a parser gives are exactly the expressible ones.  That every
expressible statement is written by some text is shown in the modules on writing;
here a run is followed to its end, and all that it keeps is put together.
-/

namespace SqlReader

open Text

/-! ## Ranges and assigned columns -/

def Column.Rangeless (c : Column) : Prop :=
  ∀ condition ∈ c.checks, ∀ p ∈ condition.predicate,
    p.operator ∉ [Operator.between, .notBetween]

theorem operator_of_predicate? {t : Token} {p : Predicate} {shape : PredicateShape}
    (h : t.predicate? = some (p, shape)) (hshape : shape ≠ .range) :
    p.operator ∉ [Operator.between, .notBetween] := by
  cases t with
  | keyword k =>
      change k.predicate? = some (p, shape) at h
      cases k <;> simp_all [Keyword.predicate?] <;> grind [Predicate.operator]
  | _ => cases h

theorem Condition.Edit.rangeless {t : Token} {a b : Condition} (h : Condition.Edit t a b)
    (hrange : ∀ p, t.predicate? ≠ some (p, .range))
    (ha : ∀ p ∈ a.predicate, p.operator ∉ [Operator.between, .notBetween]) :
    ∀ p ∈ b.predicate, p.operator ∉ [Operator.between, .notBetween] := by
  intro p hp
  cases h with
  | @operator _ shape hnone hoperator =>
      obtain rfl := Option.some.inj hp
      refine operator_of_predicate? hoperator ?_
      rintro rfl
      exact hrange _ hoperator
  | value hsome hq =>
      obtain rfl := Option.some.inj hp
      rw [hq]
      exact ha _ hsome

theorem Column.Edit.rangeless {t : Token} {c c' : Column} (h : Column.Edit t c c')
    (hc : c.Rangeless) : c'.Rangeless := by
  cases h with
  | @check fresh field hfield hfresh =>
      rw [Column.Rangeless, addCheck_checks]
      exact Draft.forall_mem_concat hc (by simp)
  | condition i hget hedit hrange =>
      exact Draft.forall_mem_set i hc (hedit.rangeless hrange (hc _ (List.mem_of_getElem? hget)))
  | _ => exact hc

theorem Statement.Edited.nodup {t : Token} {s s' : Statement} (h : Statement.Edited t s s')
    (hs : (s.updates.map (·.1)).Nodup) : (s'.updates.map (·.1)).Nodup := by
  rcases h.updates with hkeep | ⟨column, value, hset⟩
  · rwa [hkeep]
  · rw [hset, Draft.map_fst_set]
    exact Draft.nodup_pushNew hs column

/-! ## Along a run -/

namespace Parser

variable {settings : Settings} {text : String} {ts : List Token} {p q : Parser}

/-- What a run keeps. -/
structure Confined (p : Parser) : Prop where
  pictured : p.draft.Pictured
  unfused : p.Unfused
  indexed : p.Indexed
  trimmed : p.Trimmed
  rangeless : ∀ c ∈ p.draft.statement.columns, c.Rangeless
  nodup : (p.draft.statement.updates.map (·.1)).Nodup

theorem step_confined (h : p.Confined) (hstep : p.step = .ok () q) : q.Confined where
  pictured := step_pictured h.pictured hstep
  unfused := step_unfused h.pictured h.unfused hstep
  indexed := step_indexed h.pictured h.indexed hstep
  trimmed := step_trimmed h.pictured h.trimmed hstep
  rangeless := by
    obtain ⟨d, haccept, rfl⟩ := step_eq_ok_iff.mp hstep
    refine (Draft.accept_editedBy h.pictured d haccept).columns.forall_mem ?_
      (fun _ _ => Column.Edit.rangeless) h.rangeless
    rintro c ⟨name, -, rfl⟩
    simp [Column.Rangeless]
  nodup := by
    obtain ⟨d, haccept, rfl⟩ := step_eq_ok_iff.mp hstep
    exact (Draft.accept_editedBy h.pictured d haccept).nodup h.nodup

theorem confined_ofText (settings : Settings) (text : String) :
    (ofText settings text).Confined where
  pictured := rfl
  unfused := by simp [Unfused, ofText, Statement.allConditions]
  indexed := ⟨by simp [ofText], by simp [ofText]⟩
  trimmed := by
    refine ⟨?_, by simp [ofText]⟩
    rw [ofText_rest]
    exact trimEnd_dropWhile isSpace (trimEnd_trimEnd _)
  rangeless := by simp [ofText]
  nodup := by simp [ofText]

theorem Steps.confined (h : Steps (.ofText settings text) ts q) : q.Confined :=
  h.preserves (fun _ _ hp _ hstep => step_confined hp hstep) (confined_ofText settings text)

end Parser

/-! ## At the end of a run -/

theorem chainExpressible_nil : ChainExpressible [] [] := ⟨by simp, rfl⟩

theorem ChainClosed.expressible {cs : List Condition} {ls : List Connective}
    (h : ChainClosed cs ls) (hstores : ∀ c ∈ cs, c.Stores PlainName QuotableValue)
    (hfused : ∀ c ∈ cs, ¬ c.Fused) : ChainExpressible cs ls :=
  ⟨fun c hc => ⟨h.1 c hc, hstores c hc, hfused c hc⟩, h.2⟩

theorem Column.Settled.expressible {c : Column} (h : c.Settled) (hcoherent : c.Coherent)
    (hstores : c.Stores PlainName QuotableValue)
    (hfused : ∀ condition ∈ c.checks, ¬ condition.Fused) (hrange : c.Rangeless) :
    c.Expressible where
  name := hstores.name
  typed := h.typed
  listed := hcoherent.listed
  keyed := h.keyed.1
  target := by
    intro r hr
    obtain ⟨htable, hcolumn⟩ := hstores.references r hr
    exact ⟨htable, hcolumn.resolve_left (h.keyed.2 r hr).2⟩
  default := hstores.default
  chain := h.chained.expressible hstores.checks hfused
  checkable := by
    intro condition hcondition p hp
    have hoperator := hrange condition hcondition p hp
    cases p with
    | between negated low high => cases negated <;> simp [Predicate.operator] at hoperator
    | _ => trivial
  joined := hcoherent.joined

namespace Parser

variable {settings : Settings} {text : String} {ts : List Token} {p q : Parser}

theorem Confined.not_fused (h : p.Confined) :
    ∀ c ∈ p.draft.statement.allConditions, ¬ c.Fused := fun c hc => (h.unfused c hc).1

theorem Confined.chain (h : p.Confined) (hstores : p.draft.Stores PlainName QuotableValue)
    (hchain : ChainClosed p.draft.statement.conditions p.draft.statement.connectives) :
    ChainExpressible p.draft.statement.conditions p.draft.statement.connectives :=
  hchain.expressible hstores.statement.conditions fun c hc =>
    h.not_fused c (List.mem_append_left _ hc)

theorem Confined.columns (h : p.Confined) (hstores : p.draft.Stores PlainName QuotableValue)
    (hcoherent : ∀ c ∈ p.draft.statement.columns, c.Coherent)
    (hsettled : ∀ c ∈ p.draft.statement.columns, c.Settled) :
    ∀ c ∈ p.draft.statement.columns, c.Expressible := by
  intro c hc
  refine (hsettled c hc).expressible (hcoherent c hc) (hstores.statement.columns c hc) ?_
    (h.rangeless c hc)
  intro condition hcondition
  exact h.not_fused condition
    (List.mem_append_right _ (List.mem_flatMap.mpr ⟨c, hc, hcondition⟩))

end Parser

/-- The fields of a statement that is no query are plain. -/
theorem Statement.Stores.plainFields {s : Statement} (h : s.Stores PlainName QuotableValue)
    (hkind : s.kind ≠ .select) : ∀ name ∈ s.fields, PlainName name :=
  fun name hname => (h.fields name hname).resolve_right fun hselect => hkind hselect.1

theorem Finished.expressible {s : Statement} (h : Finished s)
    (hstores : s.Stores PlainName QuotableValue) (hcolumns : ∀ c ∈ s.columns, c.Expressible)
    (hindexed : s.kind = .createIndex → ∀ name ∈ s.tables, upperString name ≠ "TABLE")
    (hquery : ∀ query ∈ s.viewSelect, trimEnd query.toList = query.toList) : s.Expressible := by
  cases h with
  | table hsettled =>
      exact .createTable (hstores.tables _ (by simp)) hsettled.1 hcolumns
  | view hselect =>
      exact .createView (hstores.tables _ (by simp)) (hstores.plainFields (by simp))
        (by simpa using hselect) (hquery _ rfl)
  | index hne hs =>
      obtain ⟨table, name, rfl⟩ := hs
      obtain ⟨hname, hnames⟩ := hstores.index _ rfl
      exact .createIndex (hstores.tables _ (by simp)) (hindexed rfl _ (by simp)) hname hne hnames
  | user =>
      exact .createUser (hstores.users _ (by simp)) (hstores.password _ rfl)

theorem Filterable.expressible {s : Statement} (h : Filterable s) {cs : List Condition}
    {ls : List Connective}
    (hstores :
      Statement.Stores PlainName QuotableValue { s with conditions := cs, connectives := ls })
    (hnodup : (s.updates.map (·.1)).Nodup) (hne : cs ≠ []) (hchain : ChainExpressible cs ls) :
    Statement.Expressible { s with conditions := cs, connectives := ls } := by
  cases h with
  | select htables hfields =>
      refine .select ⟨htables, hstores.tables⟩ hfields ?_ hchain (by simp)
      exact fun name hname => (hstores.fields name hname).imp_right And.right
  | update hupdates =>
      exact .update (hstores.tables _ (by simp)) hupdates hnodup hstores.updates hne hchain
  | delete => exact .delete (hstores.tables _ (by simp)) hne hchain

theorem Sorting.expressible {orderBy : List OrderItem} {s : Statement} (h : Sorting orderBy s)
    (hstores : s.Stores PlainName QuotableValue)
    (hchain : ChainClosed s.conditions s.connectives →
      ChainExpressible s.conditions s.connectives) : s.Expressible := by
  obtain ⟨tables, fields, conditions, connectives, htables, hfields, hclosed, rfl⟩ := h
  refine .select ⟨htables, hstores.tables⟩ hfields ?_ (hchain hclosed) hstores.orderBy
  exact fun name hname => (hstores.fields name hname).imp_right And.right

namespace Parser

variable {settings : Settings} {text : String} {ts : List Token} {p q : Parser}

/-- Where a statement may end, it is expressible, unless it lacks its filter. -/
theorem Confined.expressible (h : p.Confined) (hstores : p.draft.Stores PlainName QuotableValue)
    (hcoherent : ∀ c ∈ p.draft.statement.columns, c.Coherent)
    (haccepting : p.draft.state.isAccepting = true) (hfilter : ¬ p.draft.statement.LacksFilter) :
    p.draft.statement.Expressible := by
  have hcolumns := h.columns hstores hcoherent (h.pictured.settled haccepting)
  have hlacks := h.pictured.lacksFilter
  have hchain := h.chain hstores
  have hnames := hstores.statement
  have hnodup := h.nodup
  have hpicture := h.pictured
  unfold Draft.Pictured at hpicture
  generalize p.draft.state = state at hpicture haccepting hlacks
  cases state with
  | select place =>
      cases place with
      | commaOrClause =>
          obtain ⟨tables, fields, htables, hfields, hs⟩ := hpicture
          rw [hs] at hnames ⊢
          refine .select ⟨htables, hnames.tables⟩ hfields ?_ chainExpressible_nil (by simp)
          exact fun name hname => (hnames.fields name hname).imp_right And.right
      | _ => cases haccepting
  | order place =>
      cases place with
      | field => cases haccepting
      | directionOrComma | comma =>
          obtain ⟨orderBy, -, hs⟩ := hpicture
          exact hs.expressible hnames hchain
  | insert place =>
      cases place with
      | rowComma =>
          obtain ⟨table, fields, inserts, hfields, hinserts, hrows, hs⟩ := hpicture
          rw [hs] at hnames ⊢
          exact .insert (hnames.tables _ (by simp)) ⟨hfields, hnames.plainFields (by simp)⟩ hinserts
            hrows hnames.inserts
      | _ => cases haccepting
  | update place =>
      cases place with
      | commaOrWhere => exact absurd (hlacks (.inl rfl)) hfilter
      | _ => cases haccepting
  | delete place =>
      cases place with
      | whereKeyword => exact absurd (hlacks (.inr rfl)) hfilter
      | _ => cases haccepting
  | filter place =>
      cases place with
      | conjunction =>
          obtain ⟨s, conditions, connectives, hs, hd, hne, hclosed⟩ := hpicture
          rw [hd] at hnames hnodup hchain ⊢
          exact hs.expressible hnames hnodup hne (hchain hclosed)
      | _ => cases haccepting
  | privilege place =>
      cases place with
      | granteeComma =>
          obtain ⟨privileges, tables, users, hprivileges, htables, husers, hgranting⟩ := hpicture
          obtain ⟨kind, hkind, hs⟩ := hgranting
          rw [hs] at hnames ⊢
          exact .privileges hkind hprivileges hnames.privileges ⟨htables, hnames.tables⟩
            ⟨husers, hnames.users⟩
      | _ => cases haccepting
  | done => exact Finished.expressible hpicture hnames hcolumns h.indexed.tables h.trimmed.query
  | _ => cases haccepting

end Parser

/-- A statement that was read is expressible. -/
theorem expressible_of_parseOne {settings : Settings} {text : String} {s : Statement}
    (h : parseOne settings text = .ok s) : s.Expressible := by
  obtain ⟨-, ts, q, hsteps, -, hfinish⟩ := Parser.parse_eq_ok_iff.mp h
  obtain ⟨haccepting, hfault, rfl⟩ := Parser.finish_eq_ok_iff.mp hfinish
  obtain ⟨-, hstores⟩ := hsteps.stores Quotable.nil scan_supplies
  refine hsteps.confined.expressible hstores (Parser.Reachable.start.steps hsteps).coherent
    haccepting fun hlacks => ?_
  have hmissing := hlacks.fault_eq fun name hname => ?_
  · rw [hfault] at hmissing
    cases hmissing
  · rintro rfl
    cases (hstores.statement.tables _ hname).identifier

/-! ## The expressible statements are those that can be written -/

/-- Without a limit on the length of texts, the statements that some text spells
are exactly the expressible ones. -/
theorem exists_text_iff_expressible (settings : Settings) (s : Statement) :
    (∃ text, parseOne { settings with maxInputLength := 0 } text = .ok s) ↔ s.Expressible :=
  ⟨fun ⟨_, htext⟩ => expressible_of_parseOne htext, fun h => h.exists_text rfl⟩

theorem Statement.Expressible.not_fused {s : Statement} (h : s.Expressible) :
    ∀ c ∈ s.allConditions, ¬ c.Fused := by
  intro c hc
  cases h with
  | select _ _ _ hfilter _ => exact (hfilter.conditions c (by simpa [allConditions] using hc)).apart
  | update _ _ _ _ _ hfilter =>
      exact (hfilter.conditions c (by simpa [allConditions] using hc)).apart
  | delete _ _ hfilter => exact (hfilter.conditions c (by simpa [allConditions] using hc)).apart
  | @createTable _ columns _ _ hcolumns =>
      obtain ⟨column, hcolumn, hcheck⟩ : ∃ column ∈ columns, c ∈ column.checks := by
        simpa [allConditions] using hc
      exact ((hcolumns column hcolumn).chain.conditions c hcheck).apart
  | _ => simp [allConditions] at hc

theorem Statement.Expressible.index_apart {s : Statement} (h : s.Expressible)
    (hkind : s.kind = .createIndex) : ∀ table ∈ s.tables, upperString table ≠ "TABLE" := by
  cases h with
  | createIndex _ hapart => simpa using hapart
  | privileges hgrant => rcases hgrant with rfl | rfl <;> cases hkind
  | _ => cases hkind

/-- The two families that no text spells: an index on a table whose name makes a
phrase of `ON`, and a condition on a column whose name makes a phrase of the
operator.  All names are plain. -/
theorem fused_statements_not_written :
    (∀ name ∈ ["table", "i", "c", "t", "not"], PlainName name) ∧ QuotableValue "x" ∧
      ∀ settings text,
        parseOne settings text ≠ .ok
          { kind := .createIndex
            tables := ["table"]
            fields := ["c"]
            index := some ⟨"i", [⟨"c", .ascending⟩]⟩ } ∧
        parseOne settings text ≠ .ok
          { kind := .delete
            tables := ["t"]
            conditions := [⟨.field "not", some (.inList false ["x"])⟩] } := by
  refine ⟨?_, .of_all_isWordChar (by decide), fun settings text => ⟨fun h => ?_, fun h => ?_⟩⟩
  · have hplain : ∀ name ∈ ["table", "i", "c", "t", "not"],
        isIdentifier name = true ∧ reserved? [name.toList] = none := by
      decide +kernel
    exact fun name hname => ⟨(hplain name hname).1, (hplain name hname).2⟩
  · exact (expressible_of_parseOne h).index_apart rfl "table" (by simp) (by decide +kernel)
  · refine (expressible_of_parseOne h).not_fused ⟨.field "not", some (.inList false ["x"])⟩
      (by simp [Statement.allConditions]) ⟨by decide +kernel, _, rfl, by simp [Predicate.operator]⟩

/-- Without a limit on the length of texts, the table definitions that some text
spells are those with at least one column and only expressible columns. -/
theorem exists_text_createTable_iff (settings : Settings) (table : String)
    (columns : List Column) :
    (∃ text, parseOne { settings with maxInputLength := 0 } text =
        .ok { kind := .createTable, tables := [table], columns }) ↔
      PlainName table ∧ columns ≠ [] ∧ ∀ c ∈ columns, c.Expressible := by
  constructor
  · rintro ⟨text, htext⟩
    have hs := expressible_of_parseOne htext
    generalize hshape : ({ kind := .createTable, tables := [table], columns } : Statement) = s at hs
    cases hs with
    | createTable htable hne hcolumns =>
        simp only [Statement.mk.injEq, List.cons.injEq] at hshape
        obtain ⟨-, ⟨rfl, -⟩, -, -, -, -, -, rfl, -⟩ := hshape
        exact ⟨htable, hne, hcolumns⟩
    | privileges hkind =>
        rcases hkind with rfl | rfl <;> simp at hshape
    | _ => simp at hshape
  · rintro ⟨htable, hne, hcolumns⟩
    exact (Statement.Expressible.createTable htable hne hcolumns).exists_text rfl

/-- A check on a column called `NOT` cannot say `IN`. -/
theorem fused_check_not_written :
    PlainName "t" ∧ PlainName "a" ∧ PlainName "not" ∧ QuotableValue "x" ∧
      ∀ settings text, parseOne settings text ≠ .ok
        { kind := .createTable
          tables := ["t"]
          columns :=
            [{ name := "a"
               dataType := .smallInt
               constraints := [.check]
               checks := [⟨.field "not", some (.inList false ["x"])⟩] }] } := by
  refine ⟨⟨by decide +kernel, by decide +kernel⟩, ⟨by decide +kernel, by decide +kernel⟩,
    ⟨by decide +kernel, by decide +kernel⟩, .of_all_isWordChar (by decide),
    fun settings text h => ?_⟩
  refine (expressible_of_parseOne h).not_fused ⟨.field "not", some (.inList false ["x"])⟩
    (by simp [Statement.allConditions]) ⟨by decide +kernel, _, rfl, by simp [Predicate.operator]⟩

end SqlReader
