import SqlReader.Proofs.Scanning
import SqlReader.Proofs.Validity

/-!
# The shape of a statement

What a reader of a parsed statement may rely on without a check of its own: the
parts that the kind of the statement has are filled, all others are empty, every
name is plain and every value can be put between quotes.
-/

namespace SqlReader

/-- The parts of a statement are those of its kind. -/
structure Statement.Shaped (s : Statement) : Prop where
  kind : s.kind ≠ .unknown
  tables : match s.kind with
    | .createUser => s.tables = []
    | .insert | .update | .delete | .createTable | .createView | .createIndex =>
      s.tables.length = 1
    | _ => s.tables ≠ []
  fields : match s.kind with
    | .select | .insert | .update | .createIndex => s.fields ≠ []
    | .delete | .createTable | .createUser => s.fields = []
    | _ => True
  filter : match s.kind with
    | .select => True
    | .update | .delete => s.conditions ≠ []
    | _ => s.conditions = [] ∧ s.connectives = []
  updates : s.updates ≠ [] ↔ s.kind = .update
  inserts : s.inserts ≠ [] ↔ s.kind = .insert
  columns : s.columns ≠ [] ↔ s.kind = .createTable
  references : ∀ c ∈ s.columns, ∀ r ∈ c.references, r.column ≠ ""
  viewSelect : match s.viewSelect with
    | some query => s.kind = .createView ∧ (scan query.toList).token = .keyword .select
    | none => s.kind ≠ .createView
  orderBy : s.orderBy ≠ [] → s.kind = .select
  index : match s.index with
    | some index => s.kind = .createIndex ∧ index.columns ≠ []
    | none => s.kind ≠ .createIndex
  privileges : s.privileges ≠ [] ↔ s.kind = .grant ∨ s.kind = .revoke
  users : match s.kind with
    | .createUser => s.users.length = 1
    | .grant | .revoke => s.users ≠ []
    | _ => s.users = []
  password : s.password.isSome = true ↔ s.kind = .createUser

/-! ## From the picture of an accepting state -/

theorem Filterable.shaped {s : Statement} (h : Filterable s) {conditions : List Condition}
    {connectives : List Connective} (hconditions : conditions ≠ []) :
    Statement.Shaped { s with conditions, connectives } := by
  cases h with
  | select htables hfields => constructor <;> simp_all
  | update hupdates => constructor <;> simp_all
  | delete => constructor <;> simp_all

theorem Sorting.shaped {orderBy : List OrderItem} {s : Statement} (h : Sorting orderBy s) :
    s.Shaped := by
  obtain ⟨tables, fields, conditions, connectives, htables, hfields, -, rfl⟩ := h
  constructor <;> simp_all

theorem Indexing.shaped {columns : List IndexColumn} {s : Statement} (h : Indexing columns s)
    (hcolumns : columns ≠ []) : s.Shaped := by
  obtain ⟨table, name, rfl⟩ := h
  constructor <;> simp_all

theorem Granting.shaped {privileges : List Privilege} {tables users : List String}
    {s : Statement} (h : Granting privileges tables users s) (hprivileges : privileges ≠ [])
    (htables : tables ≠ []) (husers : users ≠ []) : s.Shaped := by
  obtain ⟨kind, rfl | rfl, rfl⟩ := h
  · constructor <;> simp_all
  · constructor <;> simp_all

theorem Finished.shaped {s : Statement} (h : Finished s) : s.Shaped := by
  cases h with
  | table hcolumns =>
      constructor
      case references => exact fun c hc r hr => ((hcolumns.2 c hc).keyed.2 r hr).2
      all_goals simp [hcolumns.1]
  | view hquery => constructor <;> simp [hquery]
  | index hcolumns hs => exact hs.shaped hcolumns
  | user => constructor <;> simp

theorem Draft.Pictured.shaped {d : Draft} (h : d.Pictured)
    (haccepting : d.state.isAccepting = true) (hfault : d.statement.fault = none) :
    d.statement.Shaped := by
  unfold Pictured at h
  generalize d.state = state at h haccepting
  cases state with
  | select place =>
      cases place with
      | commaOrClause =>
          obtain ⟨tables, fields, htables, hfields, hs⟩ := h
          rw [hs]
          constructor <;> simp [htables, hfields]
      | _ => cases haccepting
  | order place =>
      cases place with
      | directionOrComma =>
          obtain ⟨orderBy, -, hs⟩ := h
          exact hs.shaped
      | comma =>
          obtain ⟨orderBy, -, hs⟩ := h
          exact hs.shaped
      | _ => cases haccepting
  | insert place =>
      cases place with
      | rowComma =>
          obtain ⟨table, fields, inserts, hfields, hinserts, -, hs⟩ := h
          rw [hs]
          constructor <;> simp [hfields, hinserts]
      | _ => cases haccepting
  | update place =>
      cases place with
      | commaOrWhere =>
          obtain ⟨table, updates, -, hs⟩ := h
          exact absurd hfault (fault_ne_none (by simp [hs]) (by simp [hs]))
      | _ => cases haccepting
  | delete place =>
      cases place with
      | whereKeyword =>
          obtain ⟨table, hs⟩ := h
          exact absurd hfault (fault_ne_none (by simp [hs]) (by simp [hs]))
      | _ => cases haccepting
  | filter place =>
      cases place with
      | conjunction =>
          obtain ⟨s, conditions, connectives, hs, hd, hne, -⟩ := h
          rw [hd]
          exact hs.shaped hne
      | _ => cases haccepting
  | privilege place =>
      cases place with
      | granteeComma =>
          obtain ⟨privileges, tables, users, hprivileges, htables, husers, hs⟩ := h
          exact hs.shaped hprivileges htables husers
      | _ => cases haccepting
  | done => exact h.shaped
  | _ => cases haccepting

/-- Texts spell plain names and quotable values. -/
theorem scan_supplies (cs : List Char) :
    (scan cs).token.Supplies PlainName (fun value => Quotable value.toList) :=
  ⟨fun _ => plainName_of_scan, fun _ => quotable_of_scan⟩

/-- A statement that was read has exactly the parts of its kind.  Its names are
plain, only a query may have stars among its fields, and its values can be put
between quotes. -/
theorem parseOne_shaped {settings : Settings} {text : String} {s : Statement}
    (h : parseOne settings text = .ok s) :
    s.Shaped ∧ s.Stores PlainName (fun value => Quotable value.toList) ∧
      ∀ c ∈ s.columns, ∀ r ∈ c.references, PlainName r.column := by
  obtain ⟨-, ts, p, hsteps, -, hfinish⟩ := Parser.parse_eq_ok_iff.mp h
  obtain ⟨haccepting, hfault, rfl⟩ := Parser.finish_eq_ok_iff.mp hfinish
  obtain ⟨hpictured, hstores⟩ := hsteps.stores Quotable.nil scan_supplies
  have hshaped := hpictured.shaped haccepting hfault
  refine ⟨hshaped, hstores.statement, ?_⟩
  intro c hc r hr
  have hcolumn := ((hstores.statement.columns c hc).references r hr).2
  exact hcolumn.resolve_left (hshaped.references c hc r hr)

/-- A deletion with an escaped quote in the value that it compares with. -/
theorem parseOne_shaped_deletion :
    ∃ s : Statement,
      s =
        { kind := .delete
          tables := ["Users"]
          conditions := [⟨.field "Name", some (.compare .eq (.literal "O\\'Neil"))⟩] } ∧
      parseOne {} "delete from Users where Name = 'O\\'Neil';" = .ok s ∧
      s.Shaped ∧ s.Stores PlainName (fun value => Quotable value.toList) ∧
      ∀ c ∈ s.columns, ∀ r ∈ c.references, PlainName r.column := by
  refine ⟨_, rfl, ?hok, parseOne_shaped ?hok⟩
  exact eq_ok_of_toOption (by decide +kernel)

end SqlReader
