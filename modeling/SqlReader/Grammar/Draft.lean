import SqlReader.Error
import SqlReader.Grammar.State
import SqlReader.Lexicon.Token

/-!
# Drafts

A draft is a statement under construction together with the state of the
grammar.  The parts that are still open, such as a column that may get further
constraints, are kept as positions in the statement.
-/

namespace SqlReader

/-- Where the condition being read stands. -/
inductive ConditionSlot
  | filter (index : Nat)
  | check (column index : Nat)
  deriving DecidableEq

/-- Whether a constraint belongs to the column being defined or to the table. -/
inductive ConstraintScope
  | column | table
  deriving DecidableEq

structure Draft where
  state : State := .beginning
  statement : Statement := {}
  /-- The column being defined. -/
  currentColumn : Option Nat := none
  /-- The column whose foreign key is being read. -/
  foreignKeyColumn : Option Nat := none
  openCondition : Option ConditionSlot := none
  constraintScope : ConstraintScope := .column
  /-- The column that the check being read belongs to. -/
  checkColumn : Option Nat := none
  /-- Whether the next check condition is the first of its check. -/
  freshCheck : Bool := false
  /-- The row being read. -/
  openRow : Option Nat := none
  /-- The column that waits for the value assigned to it. -/
  pendingField : Option String := none
  deriving DecidableEq

inductive Refusal
  /-- The token is not what the state expects. -/
  | unexpected
  /-- The token fits the grammar and breaks a rule. -/
  | breaks (reason : Reason)
  /-- The draft lacks a part that its state needs. -/
  | internal (text : String)
  deriving DecidableEq

def Token.sortOrder (t : Token) : SortOrder := if t.is .desc then .descending else .ascending

def modifyLast? (f : α → α) : List α → Option (List α)
  | [] => none
  | [a] => some [f a]
  | a :: as => (modifyLast? f as).map (a :: ·)

def pushNew [DecidableEq α] (as : List α) (a : α) : List α := if a ∈ as then as else as ++ [a]

/-- Position of the last element that satisfies `p`. -/
def lastIdx? (p : α → Bool) (as : List α) : Option Nat :=
  (as.reverse.findIdx? p).map fun i => as.length - 1 - i

namespace Draft

def addTable (d : Draft) (name : String) : Draft :=
  { d with statement := { d.statement with tables := d.statement.tables ++ [name] } }

def addField (d : Draft) (name : String) : Draft :=
  { d with statement := { d.statement with fields := d.statement.fields ++ [name] } }

/-- Adds a field that may be there already. -/
def addNewField (d : Draft) (name : String) : Draft :=
  { d with statement := { d.statement with fields := pushNew d.statement.fields name } }

def addUser (d : Draft) (name : String) : Draft :=
  { d with statement := { d.statement with users := d.statement.users ++ [name] } }

def addConnective (d : Draft) (link : Connective) : Draft :=
  { d with statement := { d.statement with connectives := d.statement.connectives ++ [link] } }

def addRow (d : Draft) : Draft :=
  let inserts := d.statement.inserts ++ [[]]
  { d with statement := { d.statement with inserts }, openRow := some (inserts.length - 1) }

/-- Position of the column of that name; of several, the last. -/
def columnIndex (d : Draft) (name : String) : Except Refusal Nat :=
  match lastIdx? (·.name == name) d.statement.columns with
  | some i => .ok i
  | none => .error (.breaks (.undefinedColumn name))

def modifyColumn (d : Draft) (i : Nat) (f : Column → Column) : Except Refusal Draft :=
  if i < d.statement.columns.length then
    .ok { d with statement := { d.statement with columns := d.statement.columns.modify i f } }
  else .error (.internal s!"column index {i} is out of range")

def modifyCurrentColumn (d : Draft) (f : Column → Column) : Except Refusal Draft :=
  match d.currentColumn with
  | some i => d.modifyColumn i f
  | none => .error (.internal "no open column")

def modifyForeignKey (d : Draft) (f : Column → Column) : Except Refusal Draft :=
  match d.foreignKeyColumn with
  | some i => d.modifyColumn i f
  | none => .error (.internal "no foreign key in progress")

def modifyLastOrder (d : Draft) (f : OrderItem → OrderItem) : Except Refusal Draft :=
  match modifyLast? f d.statement.orderBy with
  | some items => .ok { d with statement := { d.statement with orderBy := items } }
  | none => .error (.internal "ORDER BY has no open column")

def modifyIndex (d : Draft) (f : Index → Except Refusal Index) : Except Refusal Draft :=
  match d.statement.index with
  | some index => do
    let index ← f index
    return { d with statement := { d.statement with index := some index } }
  | none => .error (.internal "index name is missing")

def modifyLastPrivilege (d : Draft) (f : Privilege → Privilege) : Except Refusal Draft :=
  match modifyLast? f d.statement.privileges with
  | some items => .ok { d with statement := { d.statement with privileges := items } }
  | none => .error (.internal "privilege column without a privilege")

def currentRow (d : Draft) : Except Refusal (Nat × List String) :=
  match d.openRow with
  | none => .error (.internal "no open INSERT row")
  | some i =>
    match d.statement.inserts[i]? with
    | some row => .ok (i, row)
    | none => .error (.internal "INSERT row index is out of range")

def addValue (d : Draft) (value : String) : Except Refusal Draft := do
  let (i, row) ← d.currentRow
  let inserts := d.statement.inserts.set i (row ++ [value])
  return { d with statement := { d.statement with inserts } }

def currentCondition (d : Draft) : Except Refusal Condition :=
  let found := match d.openCondition with
    | none => none
    | some (.filter i) => some d.statement.conditions[i]?
    | some (.check j i) => some (d.statement.columns[j]?.bind (·.checks[i]?))
  match found with
  | none => .error (.internal "no open condition")
  | some none => .error (.internal "open condition index is out of range")
  | some (some c) => .ok c

def putCondition (d : Draft) (c : Condition) : Draft :=
  match d.openCondition with
  | none => d
  | some (.filter i) =>
    { d with statement := { d.statement with conditions := d.statement.conditions.set i c } }
  | some (.check j i) =>
    let columns := d.statement.columns.modify j fun column =>
      { column with checks := column.checks.set i c }
    { d with statement := { d.statement with columns } }

def setPredicate (d : Draft) (p : Predicate) : Except Refusal Draft := do
  let c ← d.currentCondition
  return d.putCondition { c with predicate := some p }

def modifyPredicate (d : Draft) (f : Predicate → Except Refusal Predicate) :
    Except Refusal Draft := do
  let c ← d.currentCondition
  match c.predicate with
  | none => .error (.internal "condition has no operator yet")
  | some p =>
    let p ← f p
    return d.putCondition { c with predicate := some p }

end Draft

end SqlReader
