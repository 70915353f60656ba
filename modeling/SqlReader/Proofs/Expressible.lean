import SqlReader.Proofs.Coherence

/-!
# Statements that can be written

The statements that some text spells, kind by kind: every part that a kind does
not have is empty, names are plain, values can be put between quotes, and no name
makes a phrase of the word before or after it.  The last condition leaves out two
families: an index on a table called `TABLE`, because `ON TABLE` is a phrase, and
conditions that say `IN`, `LIKE` or `BETWEEN` of a column called `NOT`.
-/

namespace SqlReader

open Text

/-- A value that can be put between quotes. -/
def QuotableValue (value : String) : Prop := Quotable value.toList

def Names (names : List String) : Prop := names ≠ [] ∧ ∀ name ∈ names, PlainName name

/-- The column and the operator after it would be read as one phrase. -/
def Condition.Fused (c : Condition) : Prop :=
  upperString c.left.text = "NOT" ∧
    ∃ p ∈ c.predicate, p.operator ∈ [Operator.inList, .like, .between]

structure Condition.Expressible (c : Condition) : Prop where
  complete : c.Complete
  stores : c.Stores PlainName QuotableValue
  apart : ¬ c.Fused

structure ChainExpressible (cs : List Condition) (ls : List Connective) : Prop where
  conditions : ∀ c ∈ cs, c.Expressible
  count : ls.length = cs.length - 1

def Predicate.NoRange : Predicate → Prop
  | .between _ _ _ => False
  | _ => True

structure Column.Expressible (c : Column) : Prop where
  name : PlainName c.name
  typed : c.dataType ≠ .unknown
  /-- The list of constraints says the same as the flags and values. -/
  listed : ∀ k, k ∈ c.constraints ↔ c.Bears k
  keyed : c.foreignKey = c.references.isSome
  target : ∀ r ∈ c.references, PlainName r.table ∧ PlainName r.column
  default : ∀ value ∈ c.default, QuotableValue value
  chain : ChainExpressible c.checks c.checkConnectives
  checkable : ∀ condition ∈ c.checks, ∀ p ∈ condition.predicate, p.NoRange
  /-- Between two checks there is an `AND`. -/
  joined : c.constraints.count .check ≤ c.checkConnectives.count .and + 1

/-- The statements of the language, with all their parts. -/
inductive Statement.Expressible : Statement → Prop
  | select {tables fields : List String} {conditions : List Condition}
      {connectives : List Connective} {orderBy : List OrderItem}
      (htables : Names tables) (hfields : fields ≠ [])
      (hnames : ∀ name ∈ fields, PlainName name ∨ name = "*")
      (hfilter : ChainExpressible conditions connectives)
      (horder : ∀ item ∈ orderBy, PlainName item.column) :
      Expressible { kind := .select, tables, fields, conditions, connectives, orderBy }
  | insert {table : String} {fields : List String} {inserts : List (List String)}
      (htable : PlainName table) (hfields : Names fields) (hinserts : inserts ≠ [])
      (hrows : FullRows fields inserts)
      (hvalues : ∀ row ∈ inserts, ∀ value ∈ row, QuotableValue value) :
      Expressible { kind := .insert, tables := [table], fields, inserts }
  | update {table : String} {updates : Assignments} {conditions : List Condition}
      {connectives : List Connective} (htable : PlainName table) (hupdates : updates ≠ [])
      (hkeys : (updates.map (·.1)).Nodup)
      (hentries : ∀ entry ∈ updates, PlainName entry.1 ∧ QuotableValue entry.2)
      (hconditions : conditions ≠ []) (hfilter : ChainExpressible conditions connectives) :
      Expressible
        { kind := .update, tables := [table], fields := updates.map (·.1), conditions,
          connectives, updates }
  | delete {table : String} {conditions : List Condition} {connectives : List Connective}
      (htable : PlainName table) (hconditions : conditions ≠ [])
      (hfilter : ChainExpressible conditions connectives) :
      Expressible { kind := .delete, tables := [table], conditions, connectives }
  | createTable {table : String} {columns : List Column} (htable : PlainName table)
      (hcolumns : columns ≠ []) (hcolumn : ∀ c ∈ columns, c.Expressible) :
      Expressible { kind := .createTable, tables := [table], columns }
  | createView {view : String} {fields : List String} {query : String} (hview : PlainName view)
      (hfields : ∀ name ∈ fields, PlainName name)
      (hselect : (scan query.toList).token = .keyword .select)
      (htrimmed : trimEnd query.toList = query.toList) :
      Expressible { kind := .createView, tables := [view], fields, viewSelect := some query }
  | createIndex {table name : String} {columns : List IndexColumn} (htable : PlainName table)
      (hapart : upperString table ≠ "TABLE") (hname : PlainName name) (hcolumns : columns ≠ [])
      (hnames : ∀ c ∈ columns, PlainName c.name) :
      Expressible
        { kind := .createIndex, tables := [table], fields := columns.map (·.name),
          index := some ⟨name, columns⟩ }
  | createUser {user password : String} (huser : PlainName user)
      (hpassword : QuotableValue password) :
      Expressible { kind := .createUser, users := [user], password := some password }
  | privileges {kind : Kind} {privileges : List Privilege} {tables users : List String}
      (hkind : kind = .grant ∨ kind = .revoke) (hprivileges : privileges ≠ [])
      (hcolumns : ∀ p ∈ privileges, ∀ name ∈ p.columns, PlainName name)
      (htables : Names tables) (husers : Names users) :
      Expressible
        { kind, tables, fields := distinct (privileges.flatMap (·.columns)), privileges, users }

end SqlReader
