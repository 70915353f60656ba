import SqlReader.Grammar.Condition

/-!
# Table definitions

Columns with their constraints, and the constraints that stand by themselves in
a table definition.  Both kinds share the states for checks and for the target
of a foreign key; the scope says where to go on afterwards.
-/

namespace SqlReader

namespace Draft

def addConstraint (kind : Constraint) (c : Column) : Column :=
  { c with constraints := c.constraints ++ [kind] }

def dataType : Token → DataType
  | .word s => .ofName s
  | _ => .unknown

def columnLength? : Token → Option UInt32
  | .word s => Text.unsigned? s >>= Text.word32?
  | _ => none

def addColumn (d : Draft) (name : String) : Draft :=
  let columns := d.statement.columns ++ [{ name := name }]
  { d with statement := { d.statement with columns }, currentColumn := some (columns.length - 1) }

/-- Begins a condition of a check on a column.  A further check on the same
column is joined to the earlier ones by `AND`. -/
def addCheck (fresh : Bool) (field : String) (c : Column) : Column :=
  let c :=
    if fresh then
      addConstraint .check
        { c with
          checkConnectives :=
            if c.checks.isEmpty then c.checkConnectives else c.checkConnectives ++ [.and] }
    else c
  { c with checks := c.checks ++ [{ left := .field field }] }

def setTargetColumn (d : Draft) (column : String) : Except Refusal Draft :=
  match d.foreignKeyColumn with
  | none => .error (.internal "no foreign key in progress")
  | some i =>
    match d.statement.columns[i]? with
    | none => .error (.internal s!"column index {i} is out of range")
    | some { references := none, .. } => .error (.internal "foreign key has no referenced table")
    | some { references := some target, .. } =>
      d.modifyColumn i fun c => { c with references := some { target with column } }

def afterConstraint (scope : ConstraintScope) : State :=
  match scope with
  | .column => .table .columnTail
  | .table => .table .constraintEnd

end Draft

namespace ParserM

open Draft (addConstraint dataType columnLength? afterConstraint)

def openColumn (t : Token) : ParserM State := do
  let name ← identifier t
  change (·.addColumn name)
  advance (.table .fieldType)

/-- Makes a column a foreign key whose target is still to be read. -/
def markForeignKey (i : Nat) : ParserM Unit := do
  attempt (·.modifyColumn i fun c => addConstraint .foreignKey { c with foreignKey := true })
  change fun d => { d with foreignKeyColumn := some i }

def columnTail (t : Token) : ParserM State :=
  match t.keyword? with
  | some .comma => do
    change fun d => { d with currentColumn := none }
    advance (.table .element)
  | some .rightParen => do
    change fun d => { d with currentColumn := none }
    advance .done
  | some .notNull => do
    attempt (·.modifyCurrentColumn fun c => addConstraint .notNull { c with notNull := true })
    advance (.table .columnTail)
  | some .unique => do
    attempt (·.modifyCurrentColumn fun c => addConstraint .unique { c with unique := true })
    advance (.table .columnTail)
  | some .primaryKey => do
    attempt (·.modifyCurrentColumn fun c =>
      addConstraint .primaryKey { c with primaryKey := true })
    advance (.table .columnTail)
  | some .default => advance (.table .defaultValue)
  | some .check => do
    change fun d => { d with constraintScope := .column }
    change fun d => { d with checkColumn := d.currentColumn }
    change fun d => { d with freshCheck := true }
    advance (.check .opening)
  | some .references => do
    match ← look (·.currentColumn) with
    | none => refuse (.internal "REFERENCES without an open column")
    | some i => do
      change fun d => { d with constraintScope := .column }
      markForeignKey i
      advance (.foreignKey .table)
  | _ => unexpected

def tableStep (t : Token) : TablePlace → ParserM State
  | .name => do
    let table ← identifier t
    change (·.addTable table)
    advance (.table .opening)
  | .opening => expect t .leftParen (.table .field)
  | .field => openColumn t
  | .fieldType =>
    if dataType t = .unknown then unexpected
    else do
      attempt (·.modifyCurrentColumn fun c => { c with dataType := dataType t })
      advance (.table .typeSuffix)
  | .typeSuffix => if t.is .leftParen then advance (.table .fieldLength) else columnTail t
  | .fieldLength =>
    match columnLength? t with
    | none => unexpected
    | some length => do
      attempt (·.modifyCurrentColumn fun c => { c with length := some length })
      advance (.table .lengthClose)
  | .lengthClose => expect t .rightParen (.table .columnTail)
  | .columnTail => columnTail t
  | .defaultValue => do
    let text ← value t
    attempt (·.modifyCurrentColumn fun c => addConstraint .default { c with default := some text })
    advance (.table .columnTail)
  | .element =>
    match t.keyword? with
    | some .primaryKey => do
      change fun d => { d with constraintScope := .table }
      advance (.primaryKey .opening)
    | some .foreignKey => do
      change fun d => { d with constraintScope := .table }
      advance (.foreignKey .opening)
    | some .check => do
      change fun d => { d with constraintScope := .table }
      change fun d => { d with checkColumn := none }
      change fun d => { d with freshCheck := true }
      advance (.check .opening)
    | _ => openColumn t
  | .constraintEnd =>
    match t.keyword? with
    | some .comma => advance (.table .element)
    | some .rightParen => advance .done
    | _ => unexpected

/-- The column that a condition of a check belongs to: the one that is fixed already,
or the one that the first condition names. -/
def checkTarget (field : String) : ParserM Nat := do
  match ← look (·.checkColumn) with
  | some i => return i
  | none =>
    let i ← require (·.columnIndex field)
    change fun d => { d with checkColumn := some i }
    return i

def checkStep (t : Token) : CheckPlace → ParserM State
  | .opening => expect t .leftParen (.check .field)
  | .field => do
    let field ← identifier t
    let i ← checkTarget field
    let fresh ← look (·.freshCheck)
    attempt (·.modifyColumn i (Draft.addCheck fresh field))
    let position ← look fun d => (d.statement.columns[i]?.map (·.checks.length)).getD 0 - 1
    change fun d => { d with freshCheck := false }
    change fun d => { d with openCondition := some (.check i position) }
    advance (.check .operator)
  | .operator =>
    match t.keyword?.bind Keyword.predicate? with
    | some (p, .value) => do
      attempt (·.setPredicate p)
      advance (.check .value)
    | some (p, .list) => do
      attempt (·.setPredicate p)
      advance (.check .listOpen)
    | _ => unexpected
  | .value => do
    let text ← value t
    attempt (·.modifyPredicate (·.fillValue text))
    advance (.check .conjunctionOrClose)
  | .listOpen => expect t .leftParen (.check .listValue)
  | .listValue => do
    let text ← value t
    attempt (·.modifyPredicate (·.addValue text))
    advance (.check .listNext)
  | .listNext =>
    match t.keyword? with
    | some .comma => advance (.check .listValue)
    | some .rightParen => advance (.check .conjunctionOrClose)
    | _ => unexpected
  | .conjunctionOrClose =>
    match t.keyword? with
    | some .rightParen => do
      change fun d => { d with openCondition := none }
      change fun d => { d with checkColumn := none }
      advance (afterConstraint (← look (·.constraintScope)))
    | some k =>
      match k.connective? with
      | none => unexpected
      | some link => do
        match ← look (·.checkColumn) with
        | none => refuse (.internal "CHECK has no column")
        | some i => do
          attempt (·.modifyColumn i fun c =>
            { c with checkConnectives := c.checkConnectives ++ [link] })
          advance (.check .field)
    | none => unexpected

def primaryKeyStep (t : Token) : PrimaryKeyPlace → ParserM State
  | .opening => expect t .leftParen (.primaryKey .field)
  | .field => do
    let field ← identifier t
    let i ← require (·.columnIndex field)
    attempt (·.modifyColumn i fun c => addConstraint .primaryKey { c with primaryKey := true })
    advance (.primaryKey .next)
  | .next =>
    match t.keyword? with
    | some .comma => advance (.primaryKey .field)
    | some .rightParen => advance (.table .constraintEnd)
    | _ => unexpected

def foreignKeyStep (t : Token) : ForeignKeyPlace → ParserM State
  | .opening => expect t .leftParen (.foreignKey .field)
  | .field => do
    let field ← identifier t
    let i ← require (·.columnIndex field)
    markForeignKey i
    advance (.foreignKey .close)
  | .close => expect t .rightParen (.foreignKey .references)
  | .references => expect t .references (.foreignKey .table)
  | .table => do
    let table ← identifier t
    attempt (·.modifyForeignKey fun c => { c with references := some ⟨table, ""⟩ })
    advance (.foreignKey .tableOpen)
  | .tableOpen => expect t .leftParen (.foreignKey .column)
  | .column => do
    let column ← identifier t
    attempt (·.setTargetColumn column)
    advance (.foreignKey .columnClose)
  | .columnClose =>
    if t.is .rightParen then do
      change fun d => { d with foreignKeyColumn := none }
      advance (afterConstraint (← look (·.constraintScope)))
    else unexpected

end ParserM

end SqlReader
