import SqlReader.Proofs.Residual.Basic

/-!
# Table definitions, token by token
-/

namespace SqlReader

open Sentence
open scoped Computability

variable {d : Draft} {t : Token} {ts : List Token}

namespace Sentence

variable {names : List String} {A : Language Token}

theorem identifier?_of_keyword? {k : Keyword} (h : t.keyword? = some k) :
    t.identifier? = none := by
  rw [keyword?_eq_some_iff.mp h]
  rfl

@[simp] theorem cons_mem_fromColumn :
    t :: ts ∈ fromColumn names ↔
      ∃ s, t.identifier? = some s ∧ ts ∈ columnType * elements (names ++ [s]) := by
  simp only [fromColumn, Language.mem_iSup, mul_assoc, cons_mem_one_mul]
  refine exists_congr fun s => and_congr_left fun _ => ?_
  constructor
  · rintro ⟨rfl, hs⟩
    simp [Token.identifier?, hs]
  · intro h
    cases t with
    | word u =>
        simp only [Token.identifier?] at h
        split at h
        next hu =>
          obtain rfl := Option.some.inj h
          exact ⟨rfl, hu⟩
        · cases h
    | _ => cases h

@[simp] theorem mem_element {w : List Token} :
    w ∈ element names ↔ w ∈ fromColumn names ∨ w ∈ tableConstraint names * elements names :=
  Language.mem_add _ _ _

/-- After an element a table ends, or a comma and another element follow. -/
@[simp] theorem cons_mem_elements :
    t :: ts ∈ elements names ↔
      t.keyword? = some .rightParen ∧ ts ∈ (1 : Language Token) ∨
        t.keyword? = some .comma ∧ ts ∈ element names := by
  constructor
  · intro h
    cases h with
    | close => exact .inl ⟨rfl, rfl⟩
    | column hs hdefinition hrest =>
        refine .inr ⟨rfl, mem_element.mpr (.inl (cons_mem_fromColumn.mpr ?_))⟩
        exact ⟨_, by simp [Token.identifier?, hs], Language.append_mem_mul hdefinition hrest⟩
    | constraint hclause hrest =>
        exact .inr ⟨rfl, mem_element.mpr (.inr (Language.append_mem_mul hclause hrest))⟩
  · rintro (⟨ht, hts⟩ | ⟨ht, hts⟩)
    · obtain rfl := keyword?_eq_some_iff.mp ht
      obtain rfl := (Language.mem_one _).mp hts
      exact .close
    · obtain rfl := keyword?_eq_some_iff.mp ht
      rcases mem_element.mp hts with hts | hts
      · obtain ⟨s, hts⟩ := Language.mem_iSup.mp hts
        obtain ⟨_, ⟨_, ⟨_, ⟨rfl, hs⟩, rfl⟩, definition, hdefinition, rfl⟩, rest, hrest, rfl⟩ := hts
        exact .column hs hdefinition hrest
      · obtain ⟨clause, hclause, rest, hrest, rfl⟩ := Language.mem_mul.mp hts
        exact .constraint hclause hrest

/-- The defined columns are names. -/
theorem cons_mem_nameIn_mul (hnames : ∀ s ∈ names, isIdentifier s = true) :
    t :: ts ∈ nameIn names * A ↔ (∃ s, t.identifier? = some s ∧ s ∈ names) ∧ ts ∈ A := by
  rw [nameIn, cons_mem_one_mul]
  refine and_congr_left fun _ => ?_
  constructor
  · rintro ⟨s, hs, rfl⟩
    exact ⟨s, by simp [Token.identifier?, hnames s hs], hs⟩
  · rintro ⟨s, ht, hs⟩
    refine ⟨s, hs, ?_⟩
    cases t with
    | word u =>
        simp only [Token.identifier?] at ht
        split at ht
        · rw [Option.some.inj ht]
        · cases ht
    | _ => cases ht

/-- A check of the column being defined. -/
theorem checkRest_column {c : Context} (hscope : c.scope = .column) (hbound : c.checkBound = true) :
    checkRest c .opening = parens (chain checkCondition checkCondition) * c.columnRest := by
  simp [checkRest, Context.checkField, Context.checkTail, Context.constraintRest, parens, chain,
    checkCondition, mul_assoc, hscope, hbound]

/-- A check of the table, whose first condition names a defined column. -/
theorem checkRest_table {c : Context} (hscope : c.scope = .table) (hbound : c.checkBound = false) :
    checkRest c .opening =
      parens (chain (nameIn c.names * checkOperation) checkCondition) * elements c.names := by
  simp [checkRest, Context.checkField, Context.checkTail, Context.constraintRest, parens, chain,
    mul_assoc, hscope, hbound]

theorem cons_mem_typeName_mul :
    t :: ts ∈ typeName * A ↔ Draft.dataType t ≠ .unknown ∧ ts ∈ A := by
  rw [typeName, cons_mem_one_mul]
  refine and_congr_left fun _ => ?_
  cases t <;> simp [Draft.dataType]

theorem cons_mem_typeLength_mul :
    t :: ts ∈ typeLength * A ↔ (∃ n, Draft.columnLength? t = some n) ∧ ts ∈ A := by
  rw [typeLength, cons_mem_one_mul]
  refine and_congr_left fun _ => ?_
  cases t with
  | word s =>
      simp only [Draft.columnLength?]
      cases hn : Text.unsigned? s with
      | none => simp [hn]
      | some n => simp [hn, Text.word32?]
  | _ => simp [Draft.columnLength?]

end Sentence

namespace Draft

/-! ## Operations on columns -/

theorem keeps_modifyColumn {i : Nat} {f : Column → Column} (hf : ∀ c, (f c).name = c.name) :
    Keeps d (d.modifyColumn i f) := by
  unfold modifyColumn
  split
  · apply keeps_ok
    simp only [context, rowLength, Context.mk.injEq, true_and, and_true]
    exact names_modify hf i
  · exact keeps_internal

theorem keeps_modifyCurrentColumn {f : Column → Column} (hf : ∀ c, (f c).name = c.name) :
    Keeps d (d.modifyCurrentColumn f) := by
  unfold modifyCurrentColumn
  split
  · exact keeps_modifyColumn hf
  · exact keeps_internal

theorem keeps_modifyForeignKey {f : Column → Column} (hf : ∀ c, (f c).name = c.name) :
    Keeps d (d.modifyForeignKey f) := by
  unfold modifyForeignKey
  split
  · exact keeps_modifyColumn hf
  · exact keeps_internal

theorem keeps_openForeignKey (i : Nat) : Keeps d (d.openForeignKey i) := by
  have hkeeps := keeps_modifyColumn (d := d) (i := i)
    (f := fun c => addConstraint .foreignKey { c with foreignKey := true }) fun _ => rfl
  unfold openForeignKey
  cases hmodify : d.modifyColumn i fun c => addConstraint .foreignKey { c with foreignKey := true }
    with
  | error refusal =>
      obtain ⟨message, rfl⟩ := hkeeps.refusal refusal hmodify
      exact keeps_internal
  | ok d' => exact keeps_ok (hkeeps.context d' hmodify)

theorem columnIndex_cases (d : Draft) (s : String) :
    (s ∈ d.context.names ∧ ∃ i, d.columnIndex s = .ok i) ∨
      s ∉ d.context.names ∧ ∃ reason, d.columnIndex s = .error (.breaks reason) := by
  have hfound : (lastIdx? (·.name == s) d.statement.columns).isSome = true ↔
      s ∈ d.context.names := by
    simp [lastIdx?, List.findIdx?_isSome, context]
  unfold columnIndex
  cases hlast : lastIdx? (·.name == s) d.statement.columns with
  | none => exact .inr ⟨by simpa [hlast] using hfound, _, rfl⟩
  | some i => exact .inl ⟨by simpa [hlast] using hfound, _, rfl⟩

/-- A change of a column that is looked up by its name can be made if there is one. -/
theorem goes_columnIndex {s : String} {c : Change} {f : Nat → Except Refusal Draft}
    {next : State} {P : Draft → Prop} (happly : d.apply c = d.columnIndex s >>= f)
    (hleads : Leads P (d.follow (some ⟨c, next⟩))) (hkeeps : ∀ i, Keeps d (f i)) :
    Goes (d.follow (some ⟨c, next⟩)) ts ↔
      s ∈ d.context.names ∧ ts ∈ next.residual d.context := by
  rcases columnIndex_cases d s with ⟨hs, i, hi⟩ | ⟨hs, reason, hreason⟩
  · rw [hi] at happly
    rw [goes_of_keeps hleads (by rw [happly]; exact hkeeps i)]
    simp [hs]
  · rw [hreason] at happly
    simp [goes_follow, happly, hs, bind, Except.bind]

theorem goes_openColumn :
    Goes (d.follow (Move.openColumn t)) ts ↔ t :: ts ∈ fromColumn d.context.names := by
  simp [Move.openColumn, goes_follow, apply, addColumn, State.residual, tableRest, context]

/-! ## Columns -/

theorem keeps_define (part : ColumnPart) : Keeps d (d.apply (.define part)) := by
  apply keeps_modifyCurrentColumn
  intro c
  cases part <;> rfl

theorem columnTail_goes (ht : IsTable d.statement)
    (h : Focus d.currentColumn Column.Settled d.statement.columns) :
    Goes (d.follow (Move.columnTail t)) ts ↔ t :: ts ∈ d.context.columnRest := by
  have hleads := columnTail_pictured (t := t) ht h
  obtain ⟨k, hk, -⟩ := h.exists_lt
  unfold Move.columnTail at hleads ⊢
  split at hleads
  next hcomma =>
    simp [goes_of_apply, apply, State.residual, tableRest, Context.columnRest, hcomma, context,
      rowLength]
  next hclose => simp [goes_follow, apply, State.residual, Context.columnRest, hclose]
  next hnotNull =>
    rw [goes_of_keeps hleads (keeps_define _)]
    simp [State.residual, tableRest, Context.columnRest, hnotNull]
  next hunique =>
    rw [goes_of_keeps hleads (keeps_define _)]
    simp [State.residual, tableRest, Context.columnRest, hunique]
  next hprimary =>
    rw [goes_of_keeps hleads (keeps_define _)]
    simp [State.residual, tableRest, Context.columnRest, hprimary]
  next hdefault => simp [State.residual, tableRest, Context.columnRest, hdefault]
  next hcheck =>
    rw [goes_of_apply rfl, State.residual, checkRest_column rfl (by simp [context, hk])]
    simp [Context.columnRest, hcheck, context]
  next hreferences =>
    have hkeeps : Keeps { d with constraintScope := .column } (d.apply .enterReferences) := by
      rw [apply, enterReferences, hk]
      exact keeps_openForeignKey k
    rw [goes_of_keeps hleads hkeeps]
    simp [Context.columnRest, hreferences, State.residual, foreignKeyRest, Context.constraintRest,
      context, mul_assoc]
  next => simp_all [Context.columnRest]

theorem table_goes {place : TablePlace} (h : place.Pictured d) :
    Goes (d.follow (place.move? t)) ts ↔ t :: ts ∈ tableRest d.context place := by
  have hleads := table_pictured (t := t) h
  cases place with
  | name => simp [TablePlace.move?, goes_follow, apply, State.residual, tableRest, mul_assoc]
  | opening => simp [TablePlace.move?, State.residual, tableRest]
  | field => exact goes_openColumn
  | fieldType =>
      simp only [TablePlace.move?] at hleads ⊢
      simp only [tableRest, columnType, mul_assoc, cons_mem_typeName_mul]
      split at hleads
      next hunknown => simp [hunknown]
      next hknown =>
        rw [if_neg hknown, goes_of_keeps hleads (keeps_define _)]
        simp [hknown, State.residual, tableRest, Context.columnRest]
  | typeSuffix =>
      simp only [TablePlace.move?] at hleads ⊢
      split
      next hopen =>
        simp_all [Token.is, State.residual, tableRest, Context.columnRest, mul_assoc]
      next hopen =>
        rw [columnTail_goes h.1 h.2]
        simp_all [Token.is, tableRest]
  | fieldLength =>
      rw [TablePlace.move?] at hleads ⊢
      rw [goes_map_of_keeps hleads fun _ => keeps_define _]
      simp only [tableRest, mul_assoc, cons_mem_typeLength_mul, State.residual]
  | lengthClose => simp [TablePlace.move?, State.residual, tableRest]
  | columnTail => exact columnTail_goes h.1 h.2
  | defaultValue =>
      rw [TablePlace.move?] at hleads ⊢
      rw [goes_map_of_keeps hleads fun _ => keeps_define _]
      simp [State.residual, tableRest]
  | element =>
      simp only [TablePlace.move?, tableRest, mem_element]
      split
      next hprimary =>
        simp [goes_follow, apply, hprimary, identifier?_of_keyword? hprimary, State.residual,
          primaryKeyRest, context]
      next hforeign =>
        simp [goes_follow, apply, hforeign, identifier?_of_keyword? hforeign, State.residual,
          foreignKeyRest, Context.constraintRest, context, mul_assoc]
      next hcheck =>
        rw [goes_of_apply rfl, State.residual, checkRest_table rfl rfl]
        simp [hcheck, identifier?_of_keyword? hcheck, context]
      next hprimary hforeign hcheck =>
        rw [goes_openColumn]
        simp_all
  | constraintEnd =>
      simp only [TablePlace.move?]
      split <;> simp_all [State.residual, tableRest]

/-! ## Checks -/

theorem residual_afterConstraint {e : Draft} (h : e.constraintScope = d.constraintScope) :
    (afterConstraint d.constraintScope).residual e.context = e.context.constraintRest := by
  have hscope : e.context.scope = d.constraintScope := h
  unfold afterConstraint Context.constraintRest
  rw [hscope]
  cases d.constraintScope <;> rfl

/-- Once its column is known, a condition of a check only has to be begun. -/
theorem goes_checkOn {i : Nat} {s : String} {P : Draft → Prop}
    (hleads : Leads P (d.checkOn s i)) :
    (∃ d', d.checkOn s i = .ok d' ∧ ts ∈ (State.check .operator).residual d'.context) ↔
      ts ∈ checkOperation * d.context.checkTail := by
  have hname : ∀ c, (addCheck d.freshCheck s c).name = c.name := by
    intro c
    unfold addCheck
    split <;> rfl
  have hkeeps := keeps_modifyColumn (d := d) (i := i) hname
  unfold checkOn at hleads ⊢
  cases hmodify : d.modifyColumn i (addCheck d.freshCheck s) with
  | error refusal =>
      obtain ⟨message, rfl⟩ := hkeeps.refusal refusal hmodify
      rw [hmodify] at hleads
      cases hleads
  | ok d' =>
      have hcontext : ∀ slot, { d' with
          checkColumn := some i, freshCheck := false, openCondition := slot }.context =
          { d.context with checkBound := true } := by
        intro slot
        rw [← hkeeps.context d' hmodify]
        rfl
      simp only [bind, Except.bind, pure, Except.pure, Except.ok.injEq, exists_eq_left', hcontext]
      rfl

theorem check_field_goes (hnames : ∀ s ∈ d.context.names, isIdentifier s = true)
    (h : CheckPlace.Pictured d .field) :
    Goes (d.follow (CheckPlace.move? d.constraintScope t .field)) ts ↔
      t :: ts ∈ checkRest d.context .field := by
  have hleads := check_pictured (t := t) h
  rw [CheckPlace.move?, leads_follow_map] at hleads
  simp only [leads_follow, apply] at hleads
  rw [CheckPlace.move?, goes_follow_map, checkRest, Context.checkField, mul_assoc]
  simp only [goes_follow, apply]
  cases hcheck : d.checkColumn with
  | some i =>
      have hbound : d.context.checkBound = true := by simp [context, hcheck]
      have htarget : ∀ s, d.checkTarget s = .ok i := fun s => by rw [checkTarget, hcheck]
      rw [if_pos hbound, cons_mem_name_mul, ← exists_and_right]
      refine exists_congr fun s => and_congr_right fun hs => ?_
      have hleads := hleads s hs
      rw [htarget] at hleads ⊢
      exact goes_checkOn hleads
  | none =>
      have hbound : d.context.checkBound = false := by simp [context, hcheck]
      have htarget : ∀ s, d.checkTarget s = d.columnIndex s := fun s => by rw [checkTarget, hcheck]
      rw [hbound, if_neg (by simp), cons_mem_nameIn_mul hnames, ← exists_and_right]
      simp only [and_assoc]
      refine exists_congr fun s => and_congr_right fun hs => ?_
      have hleads := hleads s hs
      rw [htarget] at hleads ⊢
      rcases columnIndex_cases d s with ⟨hmem, i, hi⟩ | ⟨hmem, reason, hreason⟩
      · rw [hi] at hleads ⊢
        simp only [hmem, true_and]
        exact goes_checkOn hleads
      · rw [hreason]
        simp [hmem, bind, Except.bind]

theorem check_goes {place : CheckPlace}
    (hnames : ∀ s ∈ d.context.names, isIdentifier s = true) (h : place.Pictured d) :
    Goes (d.follow (place.move? d.constraintScope t)) ts ↔
      t :: ts ∈ checkRest d.context place := by
  have hleads := check_pictured (t := t) h
  cases place with
  | opening => simp [CheckPlace.move?, State.residual, checkRest, mul_assoc]
  | field => exact check_field_goes hnames h
  | operator =>
      simp only [checkRest, cons_mem_checkOperation_mul, exists_mem_comparisons_iff,
        exists_mem_lists_iff]
      cases hoperator : t.keyword?.bind Keyword.predicate? with
      | none => simp [CheckPlace.move?, shape?, hoperator]
      | some found =>
          obtain ⟨p, shape⟩ := found
          simp only [CheckPlace.move?, hoperator, Option.bind_some] at hleads ⊢
          cases shape with
          | range => simp [CheckPlace.afterOperator?, shape?, hoperator]
          | value | list =>
              simp only [CheckPlace.afterOperator?, Option.map_some] at hleads ⊢
              rw [goes_of_keeps hleads (keeps_setPredicate p)]
              simp [shape?, hoperator, State.residual, checkRest]
  | value =>
      rw [CheckPlace.move?] at hleads ⊢
      rw [goes_map_of_keeps hleads keeps_fillValue]
      simp [State.residual, checkRest]
  | listOpen => simp [CheckPlace.move?, State.residual, checkRest, mul_assoc]
  | listValue =>
      rw [CheckPlace.move?] at hleads ⊢
      rw [goes_map_of_keeps hleads keeps_addItem]
      simp [State.residual, checkRest, listOf, mul_assoc]
  | listNext =>
      simp only [CheckPlace.move?]
      split <;> simp_all [State.residual, checkRest, listOf, mul_assoc]
  | conjunctionOrClose =>
      obtain ⟨-, -, -, hfocus⟩ := h
      obtain ⟨i, hi, -⟩ := hfocus.exists_lt
      simp only [CheckPlace.move?] at hleads ⊢
      simp only [checkRest, Context.checkTail, mul_assoc, cons_mem_kstar_mul, cons_mem_kw_mul,
        cons_mem_anyOf_mul, exists_mem_connectives_iff]
      split at hleads
      next hclose =>
        rw [goes_of_apply rfl, residual_afterConstraint rfl]
        simp [hclose, Keyword.connective?, Context.constraintRest, Context.columnRest, context]
      next k hother hk =>
        have hne : k ≠ .rightParen := hother
        have hbound : d.context.checkBound = true := by simp [context, hi]
        have hkeeps : ∀ link, Keeps d (d.apply (.linkCheck link)) := by
          intro link
          rw [apply, linkCheck, hi]
          exact keeps_modifyColumn fun _ => rfl
        rw [goes_map_of_keeps hleads hkeeps]
        simp [hk, hne, State.residual, checkRest, Context.checkField, Context.checkTail,
          checkCondition, mul_assoc, hbound]
      next hnone => simp [hnone]

/-! ## Keys -/

theorem primaryKey_goes {place : PrimaryKeyPlace}
    (hnames : ∀ s ∈ d.context.names, isIdentifier s = true) (h : place.Pictured d) :
    Goes (d.follow (place.move? t)) ts ↔ t :: ts ∈ primaryKeyRest d.context place := by
  have hleads := primaryKey_pictured (t := t) h
  cases place with
  | opening => simp [PrimaryKeyPlace.move?, State.residual, primaryKeyRest, mul_assoc]
  | field =>
      rw [PrimaryKeyPlace.move?, leads_follow_map] at hleads
      rw [PrimaryKeyPlace.move?, goes_follow_map, primaryKeyRest, listOf, mul_assoc, mul_assoc,
        cons_mem_nameIn_mul hnames, ← exists_and_right]
      simp only [and_assoc]
      refine exists_congr fun s => and_congr_right fun hs => ?_
      rw [goes_columnIndex (f := fun i => d.modifyColumn i (ColumnPart.primaryKey.set ·)) rfl
        (hleads s hs) fun _ => keeps_modifyColumn fun _ => rfl]
      simp [State.residual, primaryKeyRest, mul_assoc]
  | next =>
      simp only [PrimaryKeyPlace.move?]
      split <;> simp_all [State.residual, primaryKeyRest, tableRest, listOf, mul_assoc]

theorem foreignKey_goes {place : ForeignKeyPlace}
    (hnames : ∀ s ∈ d.context.names, isIdentifier s = true) (h : place.Pictured d) :
    Goes (d.follow (place.move? d.constraintScope t)) ts ↔
      t :: ts ∈ foreignKeyRest d.context place := by
  have hleads := foreignKey_pictured (t := t) h
  cases place with
  | opening => simp [ForeignKeyPlace.move?, State.residual, foreignKeyRest, mul_assoc]
  | field =>
      rw [ForeignKeyPlace.move?, leads_follow_map] at hleads
      rw [ForeignKeyPlace.move?, goes_follow_map, foreignKeyRest, mul_assoc, mul_assoc,
        cons_mem_nameIn_mul hnames, ← exists_and_right]
      simp only [and_assoc]
      refine exists_congr fun s => and_congr_right fun hs => ?_
      rw [goes_columnIndex rfl (hleads s hs) keeps_openForeignKey]
      simp [State.residual, foreignKeyRest, mul_assoc]
  | close => simp [ForeignKeyPlace.move?, State.residual, foreignKeyRest, mul_assoc]
  | references => simp [ForeignKeyPlace.move?, State.residual, foreignKeyRest, mul_assoc]
  | table =>
      rw [ForeignKeyPlace.move?] at hleads ⊢
      rw [goes_map_of_keeps hleads fun _ => keeps_modifyForeignKey fun _ => rfl]
      simp [State.residual, foreignKeyRest, mul_assoc]
  | tableOpen => simp [ForeignKeyPlace.move?, State.residual, foreignKeyRest, mul_assoc]
  | column =>
      obtain ⟨-, -, before, c, after, hcs, hk, ⟨-, r, hr, -⟩, -⟩ := h
      have hget : d.statement.columns[before.length]? = some c := by simp [hcs]
      have hkeeps : ∀ name, Keeps d (d.apply (.setTargetColumn name)) := by
        intro name
        rw [apply, setTargetColumn_eq hk hget hr]
        exact keeps_modifyColumn fun _ => rfl
      rw [ForeignKeyPlace.move?] at hleads ⊢
      rw [goes_map_of_keeps hleads hkeeps]
      simp [State.residual, foreignKeyRest, mul_assoc]
  | columnClose =>
      simp only [ForeignKeyPlace.move?, foreignKeyRest, cons_mem_kw_mul]
      split
      next hclose =>
        rw [goes_of_apply rfl, residual_afterConstraint rfl]
        simp_all [Token.is, Context.constraintRest, Context.columnRest, context]
      next hclose => simp_all [Token.is]

end Draft

end SqlReader
