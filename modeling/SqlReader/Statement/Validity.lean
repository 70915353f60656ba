import SqlReader.Error

/-!
# Validity

Rules that relate the parts of a complete statement.  The first broken rule
decides the reason.
-/

namespace SqlReader

def firstFault (check : α → Option Reason) (items : List α) : Option Reason :=
  items.findSome? check

def Condition.fault (clause : Clause) (c : Condition) : Option Reason :=
  match c.predicate with
  | none => some (.noOperator clause c.left.text)
  | some predicate =>
    if c.left.isField && c.left.text.isEmpty then some (.emptyColumnName clause)
    else
      match predicate with
      | .compare op _ =>
        if op.isComparison then none else some (.notComparison clause c.left.text op)
      | _ => none

/-- A chain of conditions has one connective fewer than conditions. -/
def chainFault (clause : Clause) (conditions : List Condition) (connectives : List Connective) :
    Option Reason :=
  (firstFault (·.fault clause) conditions).or <|
    if connectives.length = conditions.length - 1 then none
    else some (.connectiveCount clause conditions.length connectives.length)

namespace Column

/-- Whether a foreign key lacks its target. -/
def foreignKeyOpen (c : Column) : Bool :=
  c.foreignKey && !c.references.any fun r => !r.table.isEmpty && !r.column.isEmpty

def fault (c : Column) : Option Reason :=
  if c.dataType = .unknown then some (.noDataType c.name)
  else if c.foreignKeyOpen then some (.openForeignKey c.name)
  else chainFault .check c.checks c.checkConnectives

end Column

namespace Statement

def insertFault (s : Statement) : Option Reason :=
  if s.inserts.isEmpty then some .noRows
  else
    firstFault (fun row =>
      if row.length = s.fields.length then none
      else some (.valueCount s.fields.length row.length)) s.inserts

def createTableFault (s : Statement) : Option Reason :=
  if s.columns.isEmpty then some .noColumns else firstFault Column.fault s.columns

def kindFault (s : Statement) : Option Reason :=
  match s.kind with
  | .update | .delete => if s.conditions.isEmpty then some .missingFilter else none
  | .insert => s.insertFault
  | .createTable => s.createTableFault
  | _ => none

def fault (s : Statement) : Option Reason :=
  if s.kind = .unknown then some .unknownKind
  else if s.tables.any String.isEmpty then some .emptyTableName
  else s.kindFault.or (chainFault .filter s.conditions s.connectives)

/-- Checks a statement whose text ends at `offset`. -/
def validate (s : Statement) (offset : Nat) : Except Error Unit :=
  match s.fault with
  | none => .ok ()
  | some reason => .error (.semantic offset reason)

end Statement

end SqlReader
