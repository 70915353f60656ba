import SqlReader.Proofs.Progress.Basic

/-!
# Queries and changes keep their picture
-/

namespace SqlReader.Draft

variable {d : Draft} {t : Token}

theorem select_pictured {place : SelectPlace} (h : place.Pictured d) :
    Leads Pictured (d.follow (place.move? t)) := by
  cases place with
  | field =>
      obtain ⟨fields, hs⟩ := h
      simp only [SelectPlace.move?]
      split
      · refine ⟨fields ++ ["*"], by simp, ?_⟩
        simp [addField, hs]
      · simp only [leads_follow_map]
        intro name _
        refine ⟨fields ++ [name], by simp, ?_⟩
        simp [addField, hs]
  | commaOrFrom =>
      obtain ⟨fields, hfields, hs⟩ := h
      simp only [SelectPlace.move?]
      split
      · exact ⟨fields, hs⟩
      · exact ⟨[], fields, hfields, hs⟩
      · trivial
  | table =>
      obtain ⟨tables, fields, hfields, hs⟩ := h
      simp only [SelectPlace.move?, leads_follow_map]
      intro name _
      refine ⟨tables ++ [name], fields, by simp, hfields, ?_⟩
      simp [addTable, hs]
  | commaOrClause =>
      obtain ⟨tables, fields, htables, hfields, hs⟩ := h
      simp only [SelectPlace.move?]
      split
      · exact ⟨tables, fields, hfields, hs⟩
      · refine ⟨_, [], [], .select htables hfields, hs, ?_⟩
        simp [ChainOpen]
      · refine ⟨[], tables, fields, [], [], htables, hfields, ?_, hs⟩
        simp [ChainClosed]
      · trivial

theorem order_pictured {place : OrderPlace} (h : place.Pictured d) :
    Leads Pictured (d.follow (place.move? t)) := by
  cases place with
  | field =>
      obtain ⟨orderBy, tables, fields, conditions, connectives, htables, hfields, hchain, hs⟩ := h
      simp only [OrderPlace.move?, leads_follow_map]
      intro name _
      refine ⟨orderBy ++ [⟨name, .ascending⟩], by simp, tables, fields, conditions, connectives,
        htables, hfields, hchain, ?_⟩
      simp [addOrder, hs]
  | directionOrComma =>
      obtain ⟨orderBy, horder, tables, fields, conditions, connectives, htables, hfields,
        hchain, hs⟩ := h
      obtain ⟨items, item, rfl⟩ := exists_append_of_ne_nil horder
      -- both directions change the last column in the same way
      have hdirection : Leads Pictured
          (d.follow (some ⟨.orderLast t.sortOrder, .order .comma⟩)) := by
        rw [leads_follow, apply, modifyLastOrder, hs]
        simp only [modifyLast?_append]
        exact ⟨items ++ [_], by simp, tables, fields, conditions, connectives, htables, hfields,
          hchain, rfl⟩
      simp only [OrderPlace.move?]
      split
      · exact hdirection
      · exact hdirection
      · exact ⟨_, tables, fields, conditions, connectives, htables, hfields, hchain, hs⟩
      · trivial
  | comma =>
      obtain ⟨orderBy, _, hsorting⟩ := h
      simp only [OrderPlace.move?, leads_follow_expect]
      intro _
      exact ⟨orderBy, hsorting⟩

/-- The row being read is the last one. -/
theorem currentRow_eq {rows : List (List String)} {row : List String}
    (hopen : d.openRow = some rows.length) (hrows : d.statement.inserts = rows ++ [row]) :
    d.currentRow = .ok (rows.length, row) := by
  simp [currentRow, hopen, hrows]

theorem addValue_eq {rows : List (List String)} {row : List String} (value : String)
    (hopen : d.openRow = some rows.length) (hrows : d.statement.inserts = rows ++ [row]) :
    d.addValue value =
      .ok { d with
        statement := { d.statement with inserts := rows ++ [row ++ [value]] } } := by
  unfold addValue
  rw [currentRow_eq hopen hrows]
  simp [bind, Except.bind, pure, Except.pure, hrows]

theorem insert_pictured {place : InsertPlace} (h : place.Pictured d) :
    Leads Pictured (d.follow (place.move? t)) := by
  cases place with
  | table =>
      simp only [InsertPlace.move?, leads_follow_map]
      intro name _
      refine ⟨name, ?_⟩
      simp only [InsertPlace.Pictured] at h
      simp [addTable, h]
  | fieldsOpen =>
      obtain ⟨table, hs⟩ := h
      simp only [InsertPlace.move?, leads_follow_expect]
      intro _
      exact ⟨table, [], hs⟩
  | field =>
      obtain ⟨table, fields, hs⟩ := h
      simp only [InsertPlace.move?, leads_follow_map]
      intro name _
      refine ⟨table, fields ++ [name], by simp, ?_⟩
      simp [addField, hs]
  | fieldsNext =>
      obtain ⟨table, fields, hfields, hs⟩ := h
      simp only [InsertPlace.move?]
      split
      · exact ⟨table, fields, hs⟩
      · exact ⟨table, fields, hfields, hs⟩
      · trivial
  | valuesKeyword =>
      obtain ⟨table, fields, hfields, hs⟩ := h
      simp only [InsertPlace.move?, leads_follow_expect]
      intro _
      exact ⟨table, fields, [], hfields, by simp [FullRows], hs⟩
  | valuesOpen =>
      obtain ⟨table, fields, inserts, hfields, hrows, hs⟩ := h
      simp only [InsertPlace.move?]
      split
      · refine ⟨table, fields, inserts, [], hfields, hrows, ?_, ?_⟩
        · simp [addRow, hs]
        · simp [addRow, hs]
      · trivial
  | value =>
      obtain ⟨table, fields, rows, row, hfields, hrows, hopen, hs⟩ := h
      simp only [InsertPlace.move?, leads_follow_map]
      intro value _
      rw [leads_follow, apply, addValue_eq value hopen (by rw [hs])]
      refine ⟨table, fields, rows, row ++ [value], hfields, hrows, by simp, hopen, ?_⟩
      simp [hs]
  | valuesNext =>
      obtain ⟨table, fields, rows, row, hfields, hrows, _, hopen, hs⟩ := h
      simp only [InsertPlace.move?]
      split
      · exact ⟨table, fields, rows, row, hfields, hrows, hopen, hs⟩
      · rw [leads_follow, apply, closeRow, currentRow_eq hopen (by rw [hs])]
        simp only [leads_ok_bind]
        split
        next hwidth =>
          rw [hs] at hwidth
          refine ⟨table, fields, rows ++ [row], hfields, by simp, ?_, hs⟩
          intro r hr
          rcases List.mem_append.mp hr with hr | hr
          · exact hrows r hr
          · rw [List.mem_singleton.mp hr]
            exact hwidth
        · trivial
      · trivial
  | rowComma =>
      obtain ⟨table, fields, inserts, hfields, _, hrows, hs⟩ := h
      simp only [InsertPlace.move?, leads_follow_expect]
      intro _
      exact ⟨table, fields, inserts, hfields, hrows, hs⟩

theorem nodup_pushNew {names : List String} (h : names.Nodup) (name : String) :
    (pushNew names name).Nodup := by
  unfold pushNew
  split
  · exact h
  next hnew =>
    refine List.nodup_append.mpr ⟨h, by simp, ?_⟩
    rintro a ha b hb rfl
    exact hnew (List.mem_singleton.mp hb ▸ ha)

/-- Assigning to a column adds it to the assigned columns. -/
theorem map_fst_set (updates : Assignments) (column value : String) :
    (updates.set column value).map (·.1) = pushNew (updates.map (·.1)) column := by
  induction updates with
  | nil => rfl
  | cons entry rest ih =>
      obtain ⟨c, v⟩ := entry
      by_cases h : c = column
      · simp [Assignments.set, pushNew, h]
      · have h' : column ≠ c := fun e => h e.symm
        simp only [Assignments.set, h, if_false, List.map_cons, ih, pushNew, List.mem_cons, h',
          false_or]
        split <;> simp

theorem set_ne_nil (updates : Assignments) (column value : String) :
    updates.set column value ≠ [] := by
  cases updates with
  | nil => simp [Assignments.set]
  | cons entry rest =>
      simp only [Assignments.set]
      split <;> simp

theorem update_pictured {place : UpdatePlace} (h : place.Pictured d) :
    Leads Pictured (d.follow (place.move? t)) := by
  cases place with
  | table =>
      simp only [UpdatePlace.move?, leads_follow_map]
      intro name _
      refine ⟨name, ?_⟩
      simp only [UpdatePlace.Pictured] at h
      simp [addTable, h]
  | set =>
      obtain ⟨table, hs⟩ := h
      simp only [UpdatePlace.move?, leads_follow_expect]
      intro _
      exact ⟨table, [], hs⟩
  | field =>
      obtain ⟨table, updates, hs⟩ := h
      simp only [UpdatePlace.move?, leads_follow_map]
      intro name _
      refine ⟨table, updates, name, rfl, ?_⟩
      simp [addNewField, hs]
  | equal =>
      simp only [UpdatePlace.move?, leads_follow_expect]
      intro _
      exact h
  | value =>
      obtain ⟨table, updates, field, hpending, hs⟩ := h
      simp only [UpdatePlace.move?, leads_follow_map]
      intro value _
      rw [leads_follow, apply, assign, hpending]
      refine ⟨table, updates.set field value, set_ne_nil updates field value, ?_⟩
      simp only [hs, map_fst_set]
  | commaOrWhere =>
      obtain ⟨table, updates, hupdates, hs⟩ := h
      simp only [UpdatePlace.move?]
      split
      · exact ⟨table, updates, hs⟩
      · refine ⟨_, [], [], .update hupdates, hs, ?_⟩
        simp [ChainOpen]
      · trivial

theorem delete_pictured {place : DeletePlace} (h : place.Pictured d) :
    Leads Pictured (d.follow (place.move? t)) := by
  cases place with
  | table =>
      simp only [DeletePlace.move?, leads_follow_map]
      intro name _
      refine ⟨name, ?_⟩
      simp only [DeletePlace.Pictured] at h
      simp [addTable, h]
  | whereKeyword =>
      obtain ⟨table, hs⟩ := h
      simp only [DeletePlace.move?, leads_follow_expect]
      intro _
      refine ⟨_, [], [], .delete, hs, ?_⟩
      simp [ChainOpen]

/-! ## Filters -/

/-- The last condition of the filter has read as much of its predicate as `Q` says. -/
def FilterPending (Q : Option Predicate → Prop) (d : Draft) : Prop :=
  ∃ s conditions connectives, Filterable s ∧
    d.statement = { s with conditions, connectives } ∧
    ChainPending Q conditions connectives ∧
    d.openCondition = some (.filter (conditions.length - 1))

theorem FilterPending.putPredicate {Q R : Option Predicate → Prop} (h : FilterPending Q d) :
    ∃ c, d.currentCondition = .ok c ∧ Q c.predicate ∧
      ∀ p, R p → FilterPending R (d.putCondition { c with predicate := p }) := by
  obtain ⟨s, _, connectives, hs, hd, ⟨before, name, p, rfl, hbefore, hcount, hQ⟩, hopen⟩ := h
  have hindex : d.openCondition = some (.filter before.length) := by simpa using hopen
  refine ⟨⟨.field name, p⟩, ?_, hQ, ?_⟩
  · simp [currentCondition, hindex, hd]
  · intro p' hp'
    refine ⟨s, before ++ [⟨.field name, p'⟩], connectives, hs, ?_,
      ⟨before, name, p', rfl, hbefore, hcount, hp'⟩, ?_⟩
    · simp [putCondition, hindex, hd]
    · simp [putCondition, hindex]

theorem FilterPending.imp {Q R : Option Predicate → Prop} (h : FilterPending Q d)
    (hQR : ∀ p, Q p → R p) : FilterPending R d := by
  obtain ⟨s, conditions, connectives, hs, hd, hchain, hopen⟩ := h
  exact ⟨s, conditions, connectives, hs, hd, hchain.imp hQR, hopen⟩

/-- A pending condition takes any predicate. -/
theorem FilterPending.setPredicate {Q : Option Predicate → Prop} (h : FilterPending Q d)
    (p : Predicate) :
    ∃ d', d.setPredicate p = .ok d' ∧ FilterPending (· = some p) d' := by
  obtain ⟨c, hc, _, hput⟩ := h.putPredicate
  refine ⟨_, ?_, hput (some p) rfl⟩
  simp only [Draft.setPredicate, hc]
  rfl

/-- A predicate that takes a value is changed by it. -/
theorem FilterPending.modifyPredicate {Q R : Option Predicate → Prop} (h : FilterPending Q d)
    {f : Predicate → Except Refusal Predicate}
    (hf : ∀ p, Q p → ∃ old new, p = some old ∧ f old = .ok new ∧ R (some new)) :
    ∃ d', d.modifyPredicate f = .ok d' ∧ FilterPending R d' := by
  obtain ⟨c, hc, hQ, hput⟩ := h.putPredicate
  obtain ⟨old, new, hold, hnew, hR⟩ := hf _ hQ
  refine ⟨_, ?_, hput (some new) hR⟩
  simp only [Draft.modifyPredicate, hc]
  simp [bind, Except.bind, hold, hnew, pure, Except.pure]

/-- A filter whose last condition is complete may go on or end. -/
theorem FilterPending.conjunction (h : FilterPending Completes d) :
    FilterPlace.Pictured d .conjunction := by
  obtain ⟨s, _, connectives, hs, hd, ⟨before, name, _, rfl, hbefore, hcount, p, rfl, hp⟩, _⟩ := h
  refine ⟨s, _, connectives, hs, hd, by simp, ?_, by simpa using hcount⟩
  intro c hc
  rcases List.mem_append.mp hc with hc | hc
  · exact hbefore c hc
  · exact ⟨name, p, List.mem_singleton.mp hc, hp⟩

theorem filter_pictured {place : FilterPlace} (h : place.Pictured d) :
    Leads Pictured (d.follow (place.move? d.statement.kind t)) := by
  cases place with
  | field =>
      obtain ⟨s, conditions, connectives, hs, hd, hcomplete, hcount⟩ := h
      simp only [FilterPlace.move?, leads_follow_map]
      intro name _
      refine ⟨s, conditions ++ [⟨.field name, none⟩], connectives, hs, ?_,
        ⟨conditions, name, none, rfl, hcomplete, hcount, rfl⟩, ?_⟩
      · simp [addCondition, hd]
      · simp [addCondition, hd]
  | operator =>
      have h : FilterPending (· = none) d := h
      simp only [FilterPlace.move?, leads_follow_map]
      rintro ⟨p, shape⟩ hp
      obtain ⟨d', hset, hd'⟩ := h.setPredicate p
      have hshape := shape_of_predicate? hp
      refine leads_of_apply hset ?_
      cases shape <;> exact hd'.imp (by rintro _ rfl; exact hshape)
  | value =>
      have h : FilterPending TakesValue d := h
      simp only [FilterPlace.move?, leads_follow_map]
      intro value _
      obtain ⟨d', hmodify, hd'⟩ := h.modifyPredicate (completes_fillValue value)
      exact leads_of_apply hmodify hd'.conjunction
  | betweenLow =>
      have h : FilterPending TakesBounds d := h
      simp only [FilterPlace.move?, leads_follow_map]
      intro value _
      obtain ⟨d', hmodify, hd'⟩ := h.modifyPredicate (takesBounds_fillLow value)
      exact leads_of_apply hmodify hd'
  | betweenAnd =>
      simp only [FilterPlace.move?, leads_follow_expect]
      intro _
      exact h
  | betweenHigh =>
      have h : FilterPending TakesBounds d := h
      simp only [FilterPlace.move?, leads_follow_map]
      intro value _
      obtain ⟨d', hmodify, hd'⟩ := h.modifyPredicate (completes_fillHigh value)
      exact leads_of_apply hmodify hd'.conjunction
  | listOpen =>
      simp only [FilterPlace.move?, leads_follow_expect]
      intro _
      exact h
  | listValue =>
      have h : FilterPending TakesItems d := h
      simp only [FilterPlace.move?, leads_follow_map]
      intro value _
      obtain ⟨d', hmodify, hd'⟩ := h.modifyPredicate (hasItems_addValue value)
      exact leads_of_apply hmodify hd'
  | listNext =>
      have h : FilterPending HasItems d := h
      simp only [FilterPlace.move?]
      split
      · exact h.imp fun _ hp => hp.takesItems
      · exact (h.imp fun _ hp => hp.completes).conjunction
      · trivial
  | conjunction =>
      obtain ⟨s, conditions, connectives, hs, hd, hne, hcomplete, hcount⟩ := h
      simp only [FilterPlace.move?]
      split
      · split
        next hkind =>
          -- only a query has a kind that sorts
          rw [hd] at hkind
          cases hs with
          | select htables hfields =>
              exact ⟨[], _, _, conditions, connectives, htables, hfields,
                ⟨hcomplete, hcount⟩, hd⟩
          | update _ => simp at hkind
          | delete => simp at hkind
        · trivial
      · simp only [leads_follow_map]
        intro link _
        refine ⟨s, conditions, connectives ++ [link], hs, by simp [addConnective, hd],
          hcomplete, ?_⟩
        have := List.length_pos_iff.mpr hne
        rw [List.length_append, List.length_singleton, hcount]
        omega
      · trivial

end SqlReader.Draft
