import SqlReader.Proofs.Storage

/-!
# What the grammar already guarantees

A draft in an accepting state breaks no rule of validity, except that an update
or a deletion may still lack its filter.
-/

namespace SqlReader

variable {N V : String → Prop}

theorem firstFault_eq_none {α : Type} {check : α → Option Reason} {items : List α}
    (h : ∀ a ∈ items, check a = none) : firstFault check items = none :=
  List.findSome?_eq_none_iff.mpr h

theorem Condition.fault_eq_none {c : Condition} (hc : c.Complete) (hname : c.left.text ≠ "")
    (clause : Clause) : c.fault clause = none := by
  obtain ⟨name, p, rfl, hp⟩ := hc
  simp only [Operand.text] at hname
  cases p with
  | compare op right => simp [fault, Operand.isField, Operand.text, hname, hp.1]
  | _ => simp [fault, Operand.isField, Operand.text, hname]

theorem chainFault_eq_none {conditions : List Condition} {connectives : List Connective}
    (h : ChainClosed conditions connectives) (hnames : ∀ c ∈ conditions, c.left.text ≠ "")
    (clause : Clause) : chainFault clause conditions connectives = none := by
  have hfirst : firstFault (·.fault clause) conditions = none :=
    firstFault_eq_none fun c hc => Condition.fault_eq_none (h.1 c hc) (hnames c hc) clause
  simp [chainFault, hfirst, h.2]

theorem Column.fault_eq_none {c : Column} (hc : c.Settled)
    (hnames : ∀ condition ∈ c.checks, condition.left.text ≠ "") : c.fault = none := by
  have hkey : c.foreignKeyOpen = false := by
    have hreferences := hc.keyed.1
    cases href : c.references with
    | none => simp_all [foreignKeyOpen]
    | some r =>
        have hr := hc.keyed.2 r href
        simp [foreignKeyOpen, href, hr.1, hr.2]
  simp [fault, hc.typed, hkey, chainFault_eq_none hc.chained hnames]

theorem Statement.fault_eq_none {s : Statement} (hkind : s.kind ≠ .unknown)
    (htables : ∀ name ∈ s.tables, name ≠ "") (hrule : s.kindFault = none)
    (hchain : ChainClosed s.conditions s.connectives)
    (hnames : ∀ c ∈ s.conditions, c.left.text ≠ "") : s.fault = none := by
  have hempty : s.tables.any String.isEmpty = false := by
    rw [List.any_eq_false]
    intro name hname
    simpa using htables name hname
  simp [fault, hkind, hempty, hrule, chainFault_eq_none hchain hnames]

/-- An update or a deletion without a filter is a fault. -/
theorem fault_ne_none {s : Statement} (hkind : s.kind = .update ∨ s.kind = .delete)
    (hconditions : s.conditions = []) : s.fault ≠ none := by
  have hrule : s.kindFault = some .missingFilter := by
    rcases hkind with hkind | hkind
    · simp [Statement.kindFault, hkind, hconditions]
    · simp [Statement.kindFault, hkind, hconditions]
  unfold Statement.fault
  rw [hrule]
  split
  · simp
  · split <;> simp

theorem chainClosed_nil : ChainClosed [] [] := ⟨by simp, rfl⟩

theorem Filterable.kind_cases {s : Statement} (h : Filterable s) :
    s.kind = .select ∨ s.kind = .update ∨ s.kind = .delete := by
  cases h <;> simp

theorem Finished.fault_eq_none {s : Statement} (h : Finished s)
    (htables : ∀ name ∈ s.tables, name ≠ "")
    (hchecks : ∀ c ∈ s.columns, ∀ condition ∈ c.checks, condition.left.text ≠ "") :
    s.fault = none := by
  cases h with
  | table hcolumns =>
      refine Statement.fault_eq_none (by simp) htables ?_ chainClosed_nil (by simp)
      have hfirst := firstFault_eq_none fun c hc =>
        Column.fault_eq_none (hcolumns.2 c hc) (hchecks c hc)
      simp [Statement.kindFault, Statement.createTableFault, hcolumns.1, hfirst]
  | view => exact Statement.fault_eq_none (by simp) htables rfl chainClosed_nil (by simp)
  | index _ hs =>
      obtain ⟨table, name, rfl⟩ := hs
      exact Statement.fault_eq_none (by simp) htables rfl chainClosed_nil (by simp)
  | user => exact Statement.fault_eq_none (by simp) htables rfl chainClosed_nil (by simp)

namespace Draft

variable {d : Draft}

/-- What is left to check when the grammar accepts: nothing but the filter of an
update or a deletion. -/
theorem Pictured.fault_eq_none (h : d.Pictured) (hstores : d.Stores N V)
    (hN : ∀ name, N name → name ≠ "") (haccepting : d.state.isAccepting = true)
    (hupdate : d.state ≠ .update .commaOrWhere) (hdelete : d.state ≠ .delete .whereKeyword) :
    d.statement.fault = none := by
  have htables : ∀ name ∈ d.statement.tables, name ≠ "" :=
    fun name hname => hN name (hstores.statement.tables name hname)
  have hnames : ∀ c ∈ d.statement.conditions, c.left.text ≠ "" :=
    fun c hc => hN _ (hstores.statement.conditions c hc).1
  have hchecks : ∀ c ∈ d.statement.columns, ∀ condition ∈ c.checks, condition.left.text ≠ "" :=
    fun c hc condition hcondition =>
      hN _ ((hstores.statement.columns c hc).checks condition hcondition).1
  unfold Pictured at h
  generalize d.state = state at h haccepting hupdate hdelete
  cases state with
  | select place =>
      cases place with
      | commaOrClause =>
          obtain ⟨tables, fields, -, -, hs⟩ := h
          refine Statement.fault_eq_none ?_ htables ?_ ?_ hnames
          · simp [hs]
          · simp [Statement.kindFault, hs]
          · simpa [hs] using chainClosed_nil
      | _ => cases haccepting
  | order place =>
      have hsorting : ∃ orderBy, Sorting orderBy d.statement := by
        cases place with
        | directionOrComma => exact h.imp fun _ => And.right
        | comma => exact h.imp fun _ => And.right
        | _ => cases haccepting
      obtain ⟨orderBy, tables, fields, conditions, connectives, -, -, hchain, hs⟩ := hsorting
      refine Statement.fault_eq_none ?_ htables ?_ ?_ hnames
      · simp [hs]
      · simp [Statement.kindFault, hs]
      · simpa [hs] using hchain
  | insert place =>
      cases place with
      | rowComma =>
          obtain ⟨table, fields, inserts, -, hinserts, hrows, hs⟩ := h
          refine Statement.fault_eq_none ?_ htables ?_ ?_ hnames
          · simp [hs]
          · have hfirst : firstFault (fun row : List String =>
                if row.length = fields.length then none
                else some (.valueCount fields.length row.length)) inserts = none :=
              firstFault_eq_none fun row hrow => if_pos (hrows row hrow)
            simp [Statement.kindFault, Statement.insertFault, hs, hinserts, hfirst]
          · simpa [hs] using chainClosed_nil
      | _ => cases haccepting
  | update place =>
      cases place with
      | commaOrWhere => exact absurd rfl hupdate
      | _ => cases haccepting
  | delete place =>
      cases place with
      | whereKeyword => exact absurd rfl hdelete
      | _ => cases haccepting
  | filter place =>
      cases place with
      | conjunction =>
          obtain ⟨s, conditions, connectives, hs, hd, hne, hchain⟩ := h
          refine Statement.fault_eq_none ?_ htables ?_ ?_ hnames
          · rcases hs.kind_cases with hkind | hkind | hkind <;> simp [hd, hkind]
          · rcases hs.kind_cases with hkind | hkind | hkind <;>
              simp [Statement.kindFault, hd, hkind, hne]
          · simpa [hd] using hchain
      | _ => cases haccepting
  | privilege place =>
      cases place with
      | granteeComma =>
          obtain ⟨privileges, tables, users, -, -, -, kind, hkind, hs⟩ := h
          refine Statement.fault_eq_none ?_ htables ?_ ?_ hnames
          · rcases hkind with rfl | rfl <;> simp [hs]
          · rcases hkind with rfl | rfl <;> simp [Statement.kindFault, hs]
          · simpa [hs] using chainClosed_nil
      | _ => cases haccepting
  | done => exact h.fault_eq_none htables hchecks
  | _ => cases haccepting

end Draft

end SqlReader
