import SqlReader.Proofs.Residual.Basic

/-!
# Queries and changes, token by token
-/

namespace SqlReader

open Sentence
open scoped Computability

variable {d : Draft} {t : Token} {ts : List Token}

namespace Draft

theorem select_goes {place : SelectPlace} (h : place.Pictured d) :
    Goes (d.follow (place.move? t)) ts ↔ t :: ts ∈ selectRest place := by
  cases place with
  | field =>
      simp only [SelectPlace.move?]
      split
      next hstar => simp [goes_follow, apply, State.residual, selectRest, listOf, mul_assoc, hstar]
      next hstar => simp [goes_follow, apply, State.residual, selectRest, listOf, mul_assoc, hstar]
  | commaOrFrom =>
      simp only [SelectPlace.move?]
      split <;> simp_all [State.residual, selectRest, listOf, mul_assoc]
  | table =>
      simp [SelectPlace.move?, goes_follow, apply, State.residual, selectRest, listOf, mul_assoc]
  | commaOrClause =>
      obtain ⟨tables, fields, -, -, hs⟩ := h
      have hkind : d.context.kind = .select := by simp [context, hs]
      simp only [SelectPlace.move?]
      split <;> simp_all [State.residual, selectRest, filterRest, orderRest, clauses, afterFilter,
        chain, listOf, mul_assoc]

theorem keeps_modifyLastOrder (f : OrderItem → OrderItem) : Keeps d (d.modifyLastOrder f) := by
  unfold modifyLastOrder
  split
  · exact keeps_ok rfl
  · exact keeps_internal

theorem order_goes {place : OrderPlace} (h : place.Pictured d) :
    Goes (d.follow (place.move? t)) ts ↔ t :: ts ∈ orderRest place := by
  have hleads := order_pictured (t := t) h
  cases place with
  | field => simp [OrderPlace.move?, goes_follow, apply, State.residual, orderRest, listOf]
  | directionOrComma =>
      simp only [OrderPlace.move?] at hleads ⊢
      split at hleads
      next hasc =>
        rw [goes_of_keeps hleads (keeps_modifyLastOrder _)]
        simp [State.residual, orderRest, mul_assoc, hasc]
      next hdesc =>
        rw [goes_of_keeps hleads (keeps_modifyLastOrder _)]
        simp [State.residual, orderRest, mul_assoc, hdesc]
      next hcomma => simp [State.residual, orderRest, listOf, mul_assoc, hcomma]
      next hasc hdesc hcomma => simp_all [orderRest, mul_assoc]
  | comma => simp [OrderPlace.move?, State.residual, orderRest, listOf, mul_assoc]

/-! ## Insertions -/

theorem cons_mem_listOfSucc_name_mul {n : Nat} {A : Language Token} :
    t :: ts ∈ listOfSucc name n * A ↔
      (∃ s, t.identifier? = some s) ∧ ts ∈ (kw .comma * name) ^ n * A := by
  rw [listOfSucc, mul_assoc, cons_mem_name_mul]

theorem cons_mem_listOfSucc_value_mul {n : Nat} {A : Language Token} :
    t :: ts ∈ listOfSucc value n * A ↔
      (∃ s, t.value? = some s) ∧ ts ∈ (kw .comma * value) ^ n * A := by
  rw [listOfSucc, mul_assoc, cons_mem_value_mul]

/-- After an item either the list ends or it has one more. -/
theorem cons_mem_pow_mul {item A : Language Token} {n : Nat} :
    t :: ts ∈ (kw .comma * item) ^ n * A ↔
      n = 0 ∧ t :: ts ∈ A ∨
        ∃ m, n = m + 1 ∧ t.keyword? = some .comma ∧ ts ∈ listOfSucc item m * A := by
  cases n with
  | zero => simp
  | succ m => simp [pow_succ', listOfSucc, mul_assoc]

theorem cons_mem_insertRest_value {c : Context} :
    t :: ts ∈ insertRest c .value ↔
      (∃ s, t.value? = some s) ∧ ts ∈ insertRest { c with filled := c.filled + 1 } .valuesNext := by
  simp only [insertRest]
  by_cases hlt : c.filled < c.width
  · have hle : c.filled + 1 ≤ c.width := hlt
    rw [if_pos hlt, if_pos hle, mul_assoc, mul_assoc, cons_mem_listOfSucc_value_mul, Nat.sub_sub]
  · have hle : ¬ c.filled + 1 ≤ c.width := hlt
    rw [if_neg hlt, if_neg hle]
    simp [Language.notMem_zero]

/-- A row may be closed when it is full. -/
theorem cons_mem_insertRest_valuesNext {c : Context} :
    t :: ts ∈ insertRest c .valuesNext ↔
      t.keyword? = some .comma ∧ ts ∈ insertRest c .value ∨
        c.filled = c.width ∧ t.keyword? = some .rightParen ∧ ts ∈ moreRows c.width := by
  simp only [insertRest]
  by_cases hle : c.filled ≤ c.width
  · rw [if_pos hle, mul_assoc, cons_mem_pow_mul, cons_mem_kw_mul]
    by_cases hlt : c.filled < c.width
    · rw [if_pos hlt, mul_assoc]
      have hne : c.width - c.filled ≠ 0 := by omega
      have hne' : c.filled ≠ c.width := by omega
      have hm : ∀ m, c.width - c.filled = m + 1 ↔ c.width - c.filled - 1 = m := by omega
      simp [hne, hne', hm]
    · have heq : c.filled = c.width := by omega
      simp [heq, Language.notMem_zero]
  · have hlt : ¬ c.filled < c.width := by omega
    have hne : c.filled ≠ c.width := by omega
    simp [hle, hlt, hne, Language.notMem_zero]

/-- A value makes the row being read longer. -/
theorem addValue_context {i : Nat} {row : List String} (hopen : d.openRow = some i)
    (hrow : d.statement.inserts[i]? = some row) (value : String) :
    d.rowLength = row.length ∧
      ∃ d', d.addValue value = .ok d' ∧
        d'.context = { d.context with filled := d.rowLength + 1 } := by
  have hlength : d.rowLength = row.length := by simp [rowLength, hopen, hrow]
  obtain ⟨hi, hget⟩ := List.getElem?_eq_some_iff.mp hrow
  refine ⟨hlength,
    { d with
      statement :=
        { d.statement with inserts := d.statement.inserts.set i (row ++ [value]) } }, ?_, ?_⟩
  · simp only [addValue, currentRow, hopen, hrow]
    rfl
  · simp [context, rowLength, hopen, hi, hget]

/-- A new row is empty. -/
theorem context_addRow : d.addRow.context = { d.context with filled := 0 } := by
  simp [context, rowLength, addRow]

theorem insert_goes {place : InsertPlace} (h : place.Pictured d) :
    Goes (d.follow (place.move? t)) ts ↔ t :: ts ∈ insertRest d.context place := by
  cases place with
  | table =>
      simp [InsertPlace.move?, goes_follow, apply, State.residual, insertRest, mul_assoc,
        Language.mem_iSup]
  | fieldsOpen =>
      obtain ⟨table, hs⟩ := h
      have hwidth : d.context.width = 0 := by simp [context, hs]
      simp [InsertPlace.move?, State.residual, insertRest, mul_assoc, Language.mem_iSup, hwidth]
  | field =>
      simp [InsertPlace.move?, goes_follow, apply, State.residual, insertRest, mul_assoc,
        Language.mem_iSup, cons_mem_listOfSucc_name_mul, Nat.add_right_comm]
  | fieldsNext =>
      simp only [InsertPlace.move?, insertRest, Language.mem_iSup, mul_assoc, cons_mem_pow_mul,
        cons_mem_kw_mul]
      split
      next hcomma =>
        simp [State.residual, insertRest, mul_assoc, Language.mem_iSup, hcomma, Nat.add_assoc]
      next hclose => simp [State.residual, insertRest, hclose]
      next hcomma hclose => simp_all
  | valuesKeyword => simp [InsertPlace.move?, State.residual, insertRest]
  | valuesOpen =>
      obtain ⟨table, fields, inserts, hfields, -, hs⟩ := h
      have hwidth : 0 < d.context.width := by
        simpa [context, hs] using List.length_pos_iff.mpr hfields
      simp only [InsertPlace.move?]
      split
      next hopen =>
        rw [goes_of_apply rfl, context_addRow]
        simp_all [State.residual, insertRest, allRows, mul_assoc, Token.is]
      next hopen => simp_all [insertRest, allRows, Token.is]
  | value =>
      obtain ⟨table, fields, rows, row, -, -, hopen, hs⟩ := h
      have hrow : d.statement.inserts[rows.length]? = some row := by simp [hs]
      have hnext : ∀ value, Goes (d.follow (some ⟨.addValue value, .insert .valuesNext⟩)) ts ↔
          ts ∈ insertRest { d.context with filled := d.rowLength + 1 } .valuesNext := by
        intro value
        obtain ⟨-, d', hd', hcontext⟩ := addValue_context hopen hrow value
        rw [goes_of_apply (c := .addValue value) hd', hcontext]
        rfl
      simp only [InsertPlace.move?, goes_follow_map, hnext, exists_and_right]
      exact cons_mem_insertRest_value.symm
  | valuesNext =>
      obtain ⟨table, fields, rows, row, -, -, -, hopen, hs⟩ := h
      have hrow : d.statement.inserts[rows.length]? = some row := by simp [hs]
      have hfilled : d.context.filled = row.length := (addValue_context hopen hrow "").1
      rw [cons_mem_insertRest_valuesNext]
      simp only [InsertPlace.move?]
      split
      next hcomma => simp [State.residual, hcomma]
      next hclose =>
        by_cases hfull : row.length = d.statement.fields.length
        · have hwidth : d.context.filled = d.context.width := hfilled.trans hfull
          have happly : d.apply .closeRow = .ok { d with openRow := none } := by
            simp [apply, closeRow, currentRow, hopen, hrow, hfull, bind, Except.bind]
          rw [goes_of_apply happly]
          change ts ∈ moreRows d.context.width ↔ _
          simp [hclose, hwidth]
        · have hwidth : d.context.filled ≠ d.context.width := fun h => hfull (hfilled ▸ h)
          simp [goes_follow, apply, closeRow, currentRow, hopen, hrow, hfull, bind, Except.bind,
            hclose, hwidth]
      next hcomma hclose => simp_all
  | rowComma => simp [InsertPlace.move?, State.residual, insertRest, moreRows, allRows, mul_assoc]

/-! ## Updates and deletions -/

theorem update_goes {place : UpdatePlace} (h : place.Pictured d) :
    Goes (d.follow (place.move? t)) ts ↔ t :: ts ∈ updateRest place := by
  cases place with
  | table => simp [UpdatePlace.move?, goes_follow, apply, State.residual, updateRest, mul_assoc]
  | set => simp [UpdatePlace.move?, State.residual, updateRest, mul_assoc]
  | field =>
      simp [UpdatePlace.move?, goes_follow, apply, State.residual, updateRest, moreAssignments,
        listOf, mul_assoc]
  | equal => simp [UpdatePlace.move?, State.residual, updateRest, mul_assoc]
  | value =>
      obtain ⟨table, updates, field, hpending, -⟩ := h
      simp [UpdatePlace.move?, goes_follow, apply, assign, State.residual, updateRest, hpending]
  | commaOrWhere =>
      obtain ⟨table, updates, -, hs⟩ := h
      have hkind : d.context.kind = .update := by simp [context, hs]
      simp only [UpdatePlace.move?]
      split <;> simp_all [State.residual, updateRest, filterRest, moreAssignments, afterFilter,
        chain, listOf, mul_assoc]

theorem delete_goes {place : DeletePlace} (h : place.Pictured d) :
    Goes (d.follow (place.move? t)) ts ↔ t :: ts ∈ deleteRest place := by
  cases place with
  | table => simp [DeletePlace.move?, goes_follow, apply, State.residual, deleteRest]
  | whereKeyword =>
      obtain ⟨table, hs⟩ := h
      have hkind : d.context.kind = .delete := by simp [context, hs]
      simp [DeletePlace.move?, State.residual, deleteRest, filterRest, afterFilter, chain, hkind]

/-! ## Filters -/

theorem cons_mem_afterFilter {kind : Kind} :
    t :: ts ∈ afterFilter kind ↔
      kind = .select ∧ t.keyword? = some .orderBy ∧ ts ∈ listOf sorted ∨
        (∃ link, t.keyword?.bind Keyword.connective? = some link) ∧
          ts ∈ condition * afterFilter kind := by
  simp only [afterFilter, cons_mem_kstar_mul, mul_assoc, cons_mem_anyOf_mul,
    exists_mem_connectives_iff]
  split <;> simp [*]

theorem filter_goes {place : FilterPlace} (h : place.Pictured d) :
    Goes (d.follow (place.move? d.statement.kind t)) ts ↔ t :: ts ∈ filterRest d.context place := by
  have hleads := filter_pictured (t := t) h
  cases place with
  | field =>
      have hcontext : ∀ s, (d.addCondition s).context = d.context := fun _ => rfl
      simp [FilterPlace.move?, goes_follow, apply, hcontext, State.residual, filterRest]
  | operator =>
      simp only [filterRest, cons_mem_operation_mul, cons_mem_checkOperation_mul,
        exists_mem_comparisons_iff, exists_mem_lists_iff, exists_mem_ranges_iff]
      cases hoperator : t.keyword?.bind Keyword.predicate? with
      | none => simp [FilterPlace.move?, shape?, hoperator]
      | some found =>
          obtain ⟨p, shape⟩ := found
          simp only [FilterPlace.move?, hoperator, Option.map_some] at hleads ⊢
          rw [goes_of_keeps hleads (keeps_setPredicate p)]
          cases shape <;>
            simp [shape?, hoperator, FilterPlace.afterOperator, State.residual, filterRest,
              mul_assoc]
  | value =>
      rw [FilterPlace.move?] at hleads ⊢
      rw [goes_map_of_keeps hleads keeps_fillValue]
      simp [State.residual, filterRest]
  | betweenLow =>
      rw [FilterPlace.move?] at hleads ⊢
      rw [goes_map_of_keeps hleads keeps_fillLow]
      simp [State.residual, filterRest, mul_assoc]
  | betweenAnd => simp [FilterPlace.move?, State.residual, filterRest, mul_assoc]
  | betweenHigh =>
      rw [FilterPlace.move?] at hleads ⊢
      rw [goes_map_of_keeps hleads keeps_fillHigh]
      simp [State.residual, filterRest]
  | listOpen => simp [FilterPlace.move?, State.residual, filterRest, mul_assoc]
  | listValue =>
      rw [FilterPlace.move?] at hleads ⊢
      rw [goes_map_of_keeps hleads keeps_addItem]
      simp [State.residual, filterRest, listOf, mul_assoc]
  | listNext =>
      simp only [FilterPlace.move?]
      split <;> simp_all [State.residual, filterRest, listOf, mul_assoc]
  | conjunction =>
      simp only [FilterPlace.move?, filterRest, cons_mem_afterFilter]
      split
      next horder =>
        split
        next hkind =>
          simp [State.residual, orderRest, horder, Keyword.connective?, context, hkind]
        next hkind => simp [horder, Keyword.connective?, context, hkind]
      next k horder hk =>
        have hne : k ≠ .orderBy := horder
        have hcontext : ∀ link, (d.addConnective link).context = d.context := fun _ => rfl
        simp [goes_follow, apply, hcontext, State.residual, filterRest, hk, hne]
      next hnone => simp [hnone]

end Draft

end SqlReader
