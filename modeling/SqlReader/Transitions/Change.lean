import SqlReader.Grammar.Step

/-!
# Changes and moves

What a step does is said in two parts.  A change is what happens to the parts of a
draft; a move is a change together with the state after it.  The moves of each place
of the grammar depend on the token alone and stand in the modules beside this one,
each table with the lemma that the step of the place follows it.
-/

namespace SqlReader

inductive ColumnPart
  | dataType (kind : DataType)
  | length (n : UInt32)
  | notNull
  | unique
  | primaryKey
  | default (text : String)

def ColumnPart.set (c : Column) : ColumnPart → Column
  | dataType kind => { c with dataType := kind }
  | length n => { c with length := some n }
  | notNull => Draft.addConstraint .notNull { c with notNull := true }
  | unique => Draft.addConstraint .unique { c with unique := true }
  | primaryKey => Draft.addConstraint .primaryKey { c with primaryKey := true }
  | default text => Draft.addConstraint .default { c with default := some text }

/-- What a step can do to the parts of a draft. -/
inductive Change
  | stay
  | kind (kind : Kind)
  | addTable (name : String)
  | addField (name : String)
  /-- Adds the star of a query to its fields. -/
  | addStar
  | addUser (name : String)
  | addOrder (column : String)
  | orderLast (order : SortOrder)
  | addRow
  | addValue (text : String)
  | closeRow
  /-- A column of an update waits for its value. -/
  | awaitValue (column : String)
  | assign (text : String)
  | addCondition (column : String)
  | setPredicate (p : Predicate)
  | fillValue (text : String)
  | fillLow (text : String)
  | fillHigh (text : String)
  | addItem (text : String)
  | addConnective (link : Connective)
  | addColumn (name : String)
  | define (part : ColumnPart)
  | leaveColumn
  /-- A constraint of the table begins. -/
  | enterClause
  | enterCheck (scope : ConstraintScope)
  | enterReferences
  | addCheck (column : String)
  | linkCheck (link : Connective)
  | leaveCheck
  | addKey (column : String)
  | addForeignKey (column : String)
  | setTarget (table : String)
  | setTargetColumn (column : String)
  | leaveForeignKey
  | keepQuery (query : List Char)
  | nameIndex (name : String)
  | addIndexColumn (name : String)
  | orderIndex (order : SortOrder)
  | setPassword (text : String)
  | addPrivilege (action : Action)
  | grantColumn (name : String)

structure Move where
  change : Change
  next : State

/-- The move to `next` that the reserved word `k` makes, and nothing else. -/
def Move.expect (t : Token) (k : Keyword) (next : State) : Option Move :=
  if t.is k then some ⟨.stay, next⟩ else none

namespace Draft

def addOrder (d : Draft) (column : String) : Draft :=
  { d with statement := { d.statement with
      orderBy := d.statement.orderBy ++ [⟨column, .ascending⟩] } }

def closeRow (d : Draft) : Except Refusal Draft := do
  let (_, row) ← d.currentRow
  if row.length = d.statement.fields.length then .ok { d with openRow := none }
  else .error (.breaks (.valueCount d.statement.fields.length row.length))

def assign (d : Draft) (text : String) : Except Refusal Draft :=
  match d.pendingField with
  | none => .error (.internal "UPDATE value without a target column")
  | some column =>
    let updates := d.statement.updates.set column text
    .ok { d with statement := { d.statement with updates }, pendingField := none }

def addCondition (d : Draft) (column : String) : Draft :=
  let conditions := d.statement.conditions ++ [{ left := .field column }]
  { d with
    statement := { d.statement with conditions }
    openCondition := some (.filter (conditions.length - 1)) }

def openForeignKey (d : Draft) (i : Nat) : Except Refusal Draft := do
  let d ← d.modifyColumn i fun c => addConstraint .foreignKey { c with foreignKey := true }
  return { d with foreignKeyColumn := some i }

def enterReferences (d : Draft) : Except Refusal Draft :=
  match d.currentColumn with
  | none => .error (.internal "REFERENCES without an open column")
  | some i => { d with constraintScope := .column }.openForeignKey i

def checkTarget (d : Draft) (column : String) : Except Refusal Nat :=
  match d.checkColumn with
  | some i => .ok i
  | none => d.columnIndex column

def checkOn (d : Draft) (column : String) (i : Nat) : Except Refusal Draft := do
  let d ← d.modifyColumn i (addCheck d.freshCheck column)
  let position := (d.statement.columns[i]?.map (·.checks.length)).getD 0 - 1
  return { d with
    checkColumn := some i
    freshCheck := false
    openCondition := some (.check i position) }

def linkCheck (d : Draft) (link : Connective) : Except Refusal Draft :=
  match d.checkColumn with
  | none => .error (.internal "CHECK has no column")
  | some i => d.modifyColumn i fun c =>
      { c with checkConnectives := c.checkConnectives ++ [link] }

def apply (d : Draft) : Change → Except Refusal Draft
  | .stay => .ok d
  | .kind kind => .ok { d with statement := { d.statement with kind } }
  | .addTable name => .ok (d.addTable name)
  | .addField name => .ok (d.addField name)
  | .addStar => .ok (d.addField "*")
  | .addUser name => .ok (d.addUser name)
  | .addOrder column => .ok (d.addOrder column)
  | .orderLast order => d.modifyLastOrder fun item => { item with order }
  | .addRow => .ok d.addRow
  | .addValue text => d.addValue text
  | .closeRow => d.closeRow
  | .awaitValue column => .ok { d.addNewField column with pendingField := some column }
  | .assign text => d.assign text
  | .addCondition column => .ok (d.addCondition column)
  | .setPredicate p => d.setPredicate p
  | .fillValue text => d.modifyPredicate (·.fillValue text)
  | .fillLow text => d.modifyPredicate (·.fillLow text)
  | .fillHigh text => d.modifyPredicate (·.fillHigh text)
  | .addItem text => d.modifyPredicate (·.addValue text)
  | .addConnective link => .ok (d.addConnective link)
  | .addColumn name => .ok (d.addColumn name)
  | .define part => d.modifyCurrentColumn part.set
  | .leaveColumn => .ok { d with currentColumn := none }
  | .enterClause => .ok { d with constraintScope := .table }
  | .enterCheck scope =>
    let checkColumn := match scope with
      | .column => d.currentColumn
      | .table => none
    .ok { d with constraintScope := scope, checkColumn, freshCheck := true }
  | .enterReferences => d.enterReferences
  | .addCheck column => d.checkTarget column >>= d.checkOn column
  | .linkCheck link => d.linkCheck link
  | .leaveCheck => .ok { d with openCondition := none, checkColumn := none }
  | .addKey column => do
    let i ← d.columnIndex column
    d.modifyColumn i (ColumnPart.primaryKey.set ·)
  | .addForeignKey column => d.columnIndex column >>= d.openForeignKey
  | .setTarget table => d.modifyForeignKey fun c => { c with references := some ⟨table, ""⟩ }
  | .setTargetColumn column => d.setTargetColumn column
  | .leaveForeignKey => .ok { d with foreignKeyColumn := none }
  | .keepQuery query =>
    .ok { d with statement := { d.statement with viewSelect := some (String.ofList query) } }
  | .nameIndex name =>
    .ok { d with statement := { d.statement with index := some ⟨name, []⟩ } }
  | .addIndexColumn name => do
    let d ← d.modifyIndex fun index =>
      .ok { index with columns := index.columns ++ [⟨name, .ascending⟩] }
    return d.addField name
  | .orderIndex order => d.modifyIndex (orderLastColumn order)
  | .setPassword text =>
    .ok { d with statement := { d.statement with password := some text } }
  | .addPrivilege action =>
    let privileges := d.statement.privileges ++ [⟨action, []⟩]
    .ok { d with statement := { d.statement with privileges } }
  | .grantColumn name =>
    (d.addNewField name).modifyLastPrivilege fun p => { p with columns := p.columns ++ [name] }

def goto (d : Draft) (state : State) : Except Refusal Draft := .ok { d with state }

/-- Makes a move; without one the token is refused. -/
def follow (d : Draft) : Option Move → Except Refusal Draft
  | none => .error .unexpected
  | some m => d.apply m.change >>= (·.goto m.next)

end Draft

/-! ## Steps that follow a move -/

namespace Parser

/-- What a step takes: the query of a view up to the end of the text, everywhere else
one token. -/
def advance (p : Parser) : Cursor :=
  if p.draft.state = .view .query then p.cursor.popRest else p.cursor.pop

/-- The result of a step is that of a move.  A refused token leaves the parser as it
was; only where the draft lacks a part may something have changed already. -/
def Makes (p : Parser) (move : Option Move) (result : EStateM.Result Refusal Parser State) :
    Prop :=
  match move with
  | none => result = .error .unexpected p
  | some m =>
    match p.draft.apply m.change with
    | .ok draft => result = .ok m.next { p with draft, cursor := p.advance }
    | .error (.internal text) => ∃ q, result = .error (.internal text) q
    | .error refusal => result = .error refusal p

section Makes

open ParserM

variable {p : Parser} {t : Token} {c : Change} {next : State} {f : String → Move}
  {g : String → ParserM State}

theorem makes_none : p.Makes none (unexpected.run p) := rfl

theorem makes_identifier
    (h : ∀ name, t.identifier? = some name → p.Makes (some (f name)) ((g name).run p)) :
    p.Makes (t.identifier?.map f) ((identifier t >>= g).run p) := by
  rw [run_identifier_bind]
  cases hname : t.identifier? with
  | none => exact makes_none
  | some name => exact h name hname

theorem makes_value
    (h : ∀ text, t.value? = some text → p.Makes (some (f text)) ((g text).run p)) :
    p.Makes (t.value?.map f) ((value t >>= g).run p) := by
  rw [run_value_bind]
  cases htext : t.value? with
  | none => exact makes_none
  | some text => exact h text htext

theorem makes_advance (hpop : p.advance = p.cursor.pop) :
    p.Makes (some ⟨.stay, next⟩) ((ParserM.advance next).run p) := by
  change _ = _
  rw [hpop]
  rfl

theorem makes_expect (hpop : p.advance = p.cursor.pop) (k : Keyword) :
    p.Makes (Move.expect t k next) ((expect t k next).run p) := by
  unfold Move.expect ParserM.expect
  split
  · exact makes_advance hpop
  · exact makes_none

theorem makes_change {h : Draft → Draft} (hpop : p.advance = p.cursor.pop)
    (happly : p.draft.apply c = .ok (h p.draft)) :
    p.Makes (some ⟨c, next⟩) ((ParserM.change h >>= fun _ => ParserM.advance next).run p) := by
  simp only [Makes, happly, hpop]
  rfl

theorem makes_ok {draft : Draft} (h : p.draft.apply c = .ok draft) :
    p.Makes (some ⟨c, next⟩) (.ok next { p with draft, cursor := p.advance }) := by
  simp only [Makes, h]

theorem makes_error {refusal : Refusal} (h : p.draft.apply c = .error refusal) :
    p.Makes (some ⟨c, next⟩) (.error refusal p) := by
  simp only [Makes, h]
  cases refusal with
  | internal text => exact ⟨p, rfl⟩
  | _ => rfl

theorem makes_internal {text : String} (h : p.draft.apply c = .error (.internal text))
    (q : Parser) : p.Makes (some ⟨c, next⟩) (.error (.internal text) q) := by
  simp only [Makes, h]
  exact ⟨q, rfl⟩

theorem makes_attempt {h : Draft → Except Refusal Draft} (hpop : p.advance = p.cursor.pop)
    (happly : p.draft.apply c = h p.draft) :
    p.Makes (some ⟨c, next⟩) ((attempt h >>= fun _ => ParserM.advance next).run p) := by
  rw [run_attempt_bind]
  cases hdraft : h p.draft with
  | ok draft =>
      rw [hdraft] at happly
      simp only [run_advance, ← hpop]
      exact makes_ok happly
  | error refusal => exact makes_error (happly.trans hdraft)

end Makes

end Parser

end SqlReader
