import SqlReader.Transitions
import SqlReader.Lexicon.Lexeme
import SqlReader.Statement.Validity

/-!
# What a draft holds in each state

Every state of the grammar fixes what has been read so far.  `Draft.Pictured`
writes this down, state by state: the parts of the statement that are filled,
the parts that are still empty, and the part that is open.  The pictures of the
states are related by the steps of the grammar in the modules on progress.
-/

namespace SqlReader

/-! ## Conditions -/

def Predicate.Complete : Predicate → Prop
  | .compare op right => op.isComparison = true ∧ ∃ text, right = .literal text
  | .inList _ values => values ≠ []
  | _ => True

def Condition.Complete (c : Condition) : Prop :=
  ∃ name p, c = ⟨.field name, some p⟩ ∧ p.Complete

/-- A chain of conditions that ends in a connective or is still empty. -/
def ChainOpen (cs : List Condition) (ls : List Connective) : Prop :=
  (∀ c ∈ cs, c.Complete) ∧ ls.length = cs.length

def ChainClosed (cs : List Condition) (ls : List Connective) : Prop :=
  (∀ c ∈ cs, c.Complete) ∧ ls.length = cs.length - 1

/-- A chain whose last condition has read as much of its predicate as `Q` says. -/
def ChainPending (Q : Option Predicate → Prop) (cs : List Condition)
    (ls : List Connective) : Prop :=
  ∃ before name p, cs = before ++ [⟨.field name, p⟩] ∧ (∀ c ∈ before, c.Complete) ∧
    ls.length = before.length ∧ Q p

def TakesValue (p : Option Predicate) : Prop :=
  (∃ op right, op.isComparison = true ∧ p = some (.compare op right)) ∨
    ∃ negated pattern, p = some (.like negated pattern)

def TakesBounds (p : Option Predicate) : Prop :=
  ∃ negated low high, p = some (.between negated low high)

def TakesItems (p : Option Predicate) : Prop :=
  ∃ negated values, p = some (.inList negated values)

def HasItems (p : Option Predicate) : Prop :=
  ∃ negated values, values ≠ [] ∧ p = some (.inList negated values)

/-! ## Queries and changes -/

inductive Filterable : Statement → Prop
  | select {tables fields : List String} (htables : tables ≠ []) (hfields : fields ≠ []) :
      Filterable { kind := .select, tables, fields }
  | update {table : String} {updates : Assignments} (hupdates : updates ≠ []) :
      Filterable
        { kind := .update, tables := [table], fields := updates.map (·.1), updates }
  | delete {table : String} : Filterable { kind := .delete, tables := [table] }

def SelectPlace.Pictured (d : Draft) : SelectPlace → Prop
  | .field => ∃ fields, d.statement = { kind := .select, fields }
  | .commaOrFrom => ∃ fields, fields ≠ [] ∧ d.statement = { kind := .select, fields }
  | .table => ∃ tables fields, fields ≠ [] ∧ d.statement = { kind := .select, tables, fields }
  | .commaOrClause =>
    ∃ tables fields, tables ≠ [] ∧ fields ≠ [] ∧
      d.statement = { kind := .select, tables, fields }

/-- A query with a complete filter, or without one, that is read up to its sort
columns. -/
def Sorting (orderBy : List OrderItem) (s : Statement) : Prop :=
  ∃ tables fields conditions connectives, tables ≠ [] ∧ fields ≠ [] ∧
    ChainClosed conditions connectives ∧
    s = { kind := .select, tables, fields, conditions, connectives, orderBy }

def OrderPlace.Pictured (d : Draft) : OrderPlace → Prop
  | .field => ∃ orderBy, Sorting orderBy d.statement
  | .directionOrComma | .comma => ∃ orderBy, orderBy ≠ [] ∧ Sorting orderBy d.statement

def FullRows (fields : List String) (rows : List (List String)) : Prop :=
  ∀ row ∈ rows, row.length = fields.length

def InsertPlace.Pictured (d : Draft) : InsertPlace → Prop
  | .table => d.statement = { kind := .insert }
  | .fieldsOpen => ∃ table, d.statement = { kind := .insert, tables := [table] }
  | .field => ∃ table fields, d.statement = { kind := .insert, tables := [table], fields }
  | .fieldsNext | .valuesKeyword =>
    ∃ table fields, fields ≠ [] ∧ d.statement = { kind := .insert, tables := [table], fields }
  | .valuesOpen =>
    ∃ table fields inserts, fields ≠ [] ∧ FullRows fields inserts ∧
      d.statement = { kind := .insert, tables := [table], fields, inserts }
  | .value =>
    ∃ table fields rows row, fields ≠ [] ∧ FullRows fields rows ∧
      d.openRow = some rows.length ∧
      d.statement = { kind := .insert, tables := [table], fields, inserts := rows ++ [row] }
  | .valuesNext =>
    ∃ table fields rows row, fields ≠ [] ∧ FullRows fields rows ∧ row ≠ [] ∧
      d.openRow = some rows.length ∧
      d.statement = { kind := .insert, tables := [table], fields, inserts := rows ++ [row] }
  | .rowComma =>
    ∃ table fields inserts, fields ≠ [] ∧ inserts ≠ [] ∧ FullRows fields inserts ∧
      d.statement = { kind := .insert, tables := [table], fields, inserts }

def UpdatePlace.Pictured (d : Draft) : UpdatePlace → Prop
  | .table => d.statement = { kind := .update }
  | .set => ∃ table, d.statement = { kind := .update, tables := [table] }
  | .field =>
    ∃ table updates, d.statement =
      { kind := .update, tables := [table], fields := updates.map (·.1), updates }
  | .equal | .value =>
    ∃ table updates field, d.pendingField = some field ∧ d.statement =
      { kind := .update, tables := [table], fields := pushNew (updates.map (·.1)) field, updates }
  | .commaOrWhere =>
    ∃ table updates, updates ≠ [] ∧ d.statement =
      { kind := .update, tables := [table], fields := updates.map (·.1), updates }

def DeletePlace.Pictured (d : Draft) : DeletePlace → Prop
  | .table => d.statement = { kind := .delete }
  | .whereKeyword => ∃ table, d.statement = { kind := .delete, tables := [table] }

/-- What the last condition of a filter has read; nothing where no condition is
open. -/
def FilterPlace.awaits : FilterPlace → Option Predicate → Prop
  | .operator => (· = none)
  | .value => TakesValue
  | .betweenLow | .betweenAnd | .betweenHigh => TakesBounds
  | .listOpen | .listValue => TakesItems
  | .listNext => HasItems
  | .field | .conjunction => fun _ => False

def FilterPlace.Pictured (d : Draft) (place : FilterPlace) : Prop :=
  ∃ s conditions connectives, Filterable s ∧
    d.statement = { s with conditions, connectives } ∧
    match place with
    | .field => ChainOpen conditions connectives
    | .conjunction => conditions ≠ [] ∧ ChainClosed conditions connectives
    | place =>
      ChainPending place.awaits conditions connectives ∧
        d.openCondition = some (.filter (conditions.length - 1))

/-! ## Tables -/

def Column.Keyed (c : Column) : Prop :=
  c.foreignKey = c.references.isSome ∧
    ∀ r ∈ c.references, r.table ≠ "" ∧ r.column ≠ ""

def Column.Chained (c : Column) : Prop := ChainClosed c.checks c.checkConnectives

structure Column.Settled (c : Column) : Prop where
  typed : c.dataType ≠ .unknown
  keyed : c.Keyed
  chained : c.Chained

def AllSettled (cs : List Column) : Prop := cs ≠ [] ∧ ∀ c ∈ cs, c.Settled

/-- The column at position `i` satisfies `Q`, and all others are settled. -/
def Focus (i : Option Nat) (Q : Column → Prop) (cs : List Column) : Prop :=
  ∃ before c after, cs = before ++ c :: after ∧ i = some before.length ∧ Q c ∧
    ∀ b ∈ before ++ after, b.Settled

def Column.Untyped (c : Column) : Prop := c.Keyed ∧ c.Chained

def Column.AwaitsTarget (c : Column) : Prop :=
  c.dataType ≠ .unknown ∧ c.Chained ∧ c.foreignKey = true

def Column.AwaitsTargetColumn (c : Column) : Prop :=
  c.AwaitsTarget ∧ ∃ r, c.references = some r ∧ r.table ≠ ""

def Column.Checking (R : List Condition → List Connective → Prop) (c : Column) : Prop :=
  c.dataType ≠ .unknown ∧ c.Keyed ∧ R c.checks c.checkConnectives

def IsTable (s : Statement) : Prop :=
  ∃ table columns, s = { kind := .createTable, tables := [table], columns }

/-- A constraint of a column can go back to that column. -/
def Draft.Resumes (d : Draft) : Prop :=
  d.constraintScope = .column →
    ∃ i, d.currentColumn = some i ∧ i < d.statement.columns.length

def TablePlace.Pictured (d : Draft) : TablePlace → Prop
  | .name => d.statement = { kind := .createTable }
  | .opening | .field => ∃ table, d.statement = { kind := .createTable, tables := [table] }
  | .fieldType =>
    IsTable d.statement ∧ Focus d.currentColumn Column.Untyped d.statement.columns
  | .typeSuffix | .fieldLength | .lengthClose | .columnTail | .defaultValue =>
    IsTable d.statement ∧ Focus d.currentColumn Column.Settled d.statement.columns
  | .element | .constraintEnd => IsTable d.statement ∧ AllSettled d.statement.columns

def Draft.CheckFresh (d : Draft) : Prop :=
  d.freshCheck = true ∧ AllSettled d.statement.columns ∧
    ∀ i ∈ d.checkColumn, i < d.statement.columns.length

def Draft.CheckPending (Q : Option Predicate → Prop) (d : Draft) : Prop :=
  d.freshCheck = false ∧ ∃ before c after, d.statement.columns = before ++ c :: after ∧
    d.checkColumn = some before.length ∧
    d.openCondition = some (.check before.length (c.checks.length - 1)) ∧
    c.Checking (ChainPending Q) ∧ ∀ b ∈ before ++ after, b.Settled

def CheckPlace.Pictured (d : Draft) (place : CheckPlace) : Prop :=
  IsTable d.statement ∧ d.Resumes ∧
    match place with
    | .opening => d.CheckFresh
    | .field =>
      d.CheckFresh ∨
        d.freshCheck = false ∧
          Focus d.checkColumn (fun c => c.checks ≠ [] ∧ c.Checking ChainOpen)
            d.statement.columns
    | .operator => d.CheckPending (· = none)
    | .value => d.CheckPending TakesValue
    | .listOpen | .listValue => d.CheckPending TakesItems
    | .listNext => d.CheckPending HasItems
    | .conjunctionOrClose =>
      d.freshCheck = false ∧
        Focus d.checkColumn (fun c => c.checks ≠ [] ∧ c.Settled) d.statement.columns

def PrimaryKeyPlace.Pictured (d : Draft) (_ : PrimaryKeyPlace) : Prop :=
  IsTable d.statement ∧ AllSettled d.statement.columns

def ForeignKeyPlace.Pictured (d : Draft) (place : ForeignKeyPlace) : Prop :=
  IsTable d.statement ∧
    match place with
    | .opening | .field => d.constraintScope = .table ∧ AllSettled d.statement.columns
    | .close | .references =>
      d.constraintScope = .table ∧
        Focus d.foreignKeyColumn Column.AwaitsTarget d.statement.columns
    | .table =>
      d.Resumes ∧ Focus d.foreignKeyColumn Column.AwaitsTarget d.statement.columns
    | .tableOpen | .column =>
      d.Resumes ∧ Focus d.foreignKeyColumn Column.AwaitsTargetColumn d.statement.columns
    | .columnClose => d.Resumes ∧ AllSettled d.statement.columns

/-! ## Views, indexes, users and privileges -/

def ViewPlace.Pictured (d : Draft) : ViewPlace → Prop
  | .name => d.statement = { kind := .createView }
  | .columnsOrAs => ∃ view, d.statement = { kind := .createView, tables := [view] }
  | .field | .fieldsNext | .asKeyword | .query =>
    ∃ view fields, d.statement = { kind := .createView, tables := [view], fields }

/-- An index whose columns are also the fields of the statement. -/
def Indexing (columns : List IndexColumn) (s : Statement) : Prop :=
  ∃ table name, s =
    { kind := .createIndex, tables := [table], fields := columns.map (·.name),
      index := some ⟨name, columns⟩ }

def IndexPlace.Pictured (d : Draft) : IndexPlace → Prop
  | .name => d.statement = { kind := .createIndex }
  | .on | .table => ∃ name, d.statement = { kind := .createIndex, index := some ⟨name, []⟩ }
  | .opening => Indexing [] d.statement
  | .field => ∃ columns, Indexing columns d.statement
  | .orderOrNext | .next => ∃ columns, columns ≠ [] ∧ Indexing columns d.statement

def UserPlace.Pictured (d : Draft) : UserPlace → Prop
  | .name => d.statement = { kind := .createUser }
  | .identifiedBy | .password => ∃ user, d.statement = { kind := .createUser, users := [user] }

def distinct (names : List String) : List String := names.foldl pushNew []

/-- Privileges whose columns, without repetitions, are the fields of the
statement. -/
def Granting (privileges : List Privilege) (tables users : List String) (s : Statement) : Prop :=
  ∃ kind, (kind = .grant ∨ kind = .revoke) ∧ s =
    { kind, tables, fields := distinct (privileges.flatMap (·.columns)), privileges, users }

def PrivilegePlace.Pictured (d : Draft) : PrivilegePlace → Prop
  | .action => ∃ privileges, Granting privileges [] [] d.statement
  | .columnsOrNext | .column | .columnsNext | .commaOrOn =>
    ∃ privileges, privileges ≠ [] ∧ Granting privileges [] [] d.statement
  | .table => ∃ privileges tables, privileges ≠ [] ∧ Granting privileges tables [] d.statement
  | .tablesNext =>
    ∃ privileges tables, privileges ≠ [] ∧ tables ≠ [] ∧
      Granting privileges tables [] d.statement
  | .grantee =>
    ∃ privileges tables users, privileges ≠ [] ∧ tables ≠ [] ∧
      Granting privileges tables users d.statement
  | .granteeComma =>
    ∃ privileges tables users, privileges ≠ [] ∧ tables ≠ [] ∧ users ≠ [] ∧
      Granting privileges tables users d.statement

/-! ## All states -/

/-- The statements after which only the end of the text may follow. -/
inductive Finished : Statement → Prop
  | table {table : String} {columns : List Column} (hcolumns : AllSettled columns) :
      Finished { kind := .createTable, tables := [table], columns }
  | view {view : String} {fields : List String} {query : List Char}
      (hquery : (scan query).token = .keyword .select) :
      Finished
        { kind := .createView, tables := [view], fields, viewSelect := some (.ofList query) }
  | index {columns : List IndexColumn} {s : Statement} (hcolumns : columns ≠ [])
      (hs : Indexing columns s) : Finished s
  | user {user password : String} :
      Finished { kind := .createUser, users := [user], password := some password }

/-- The draft holds what its state says has been read. -/
def Draft.Pictured (d : Draft) : Prop :=
  match d.state with
  | .beginning => d.statement = {}
  | .select place => place.Pictured d
  | .order place => place.Pictured d
  | .insert place => place.Pictured d
  | .update place => place.Pictured d
  | .delete place => place.Pictured d
  | .filter place => place.Pictured d
  | .table place => place.Pictured d
  | .check place => place.Pictured d
  | .primaryKey place => place.Pictured d
  | .foreignKey place => place.Pictured d
  | .view place => place.Pictured d
  | .index place => place.Pictured d
  | .user place => place.Pictured d
  | .privilege place => place.Pictured d
  | .done => Finished d.statement

end SqlReader
