import SqlReader.Grammar.Monad

/-!
# Queries and changes

The parts of the grammar for reading rows and for inserting, updating and
deleting them, up to the filter.
-/

namespace SqlReader.ParserM

def selectStep (t : Token) : SelectPlace → ParserM State
  | .field => do
    let field ← if t = .word "*" then pure "*" else identifier t
    change (·.addField field)
    advance (.select .commaOrFrom)
  | .commaOrFrom =>
    match t.keyword? with
    | some .comma => advance (.select .field)
    | some .fromClause => advance (.select .table)
    | _ => unexpected
  | .table => do
    let table ← identifier t
    change (·.addTable table)
    advance (.select .commaOrClause)
  | .commaOrClause =>
    match t.keyword? with
    | some .comma => advance (.select .table)
    | some .whereClause => advance (.filter .field)
    | some .orderBy => advance (.order .field)
    | _ => unexpected

def orderStep (t : Token) : OrderPlace → ParserM State
  | .field => do
    let column ← identifier t
    change fun d =>
      let orderBy := d.statement.orderBy ++ [⟨column, .ascending⟩]
      { d with statement := { d.statement with orderBy } }
    advance (.order .directionOrComma)
  | .directionOrComma =>
    match t.keyword? with
    | some .asc | some .desc => do
      attempt (·.modifyLastOrder fun item => { item with order := t.sortOrder })
      advance (.order .comma)
    | some .comma => advance (.order .field)
    | _ => unexpected
  | .comma => expect t .comma (.order .field)

def insertStep (t : Token) : InsertPlace → ParserM State
  | .table => do
    let table ← identifier t
    change (·.addTable table)
    advance (.insert .fieldsOpen)
  | .fieldsOpen => expect t .leftParen (.insert .field)
  | .field => do
    let field ← identifier t
    change (·.addField field)
    advance (.insert .fieldsNext)
  | .fieldsNext =>
    match t.keyword? with
    | some .comma => advance (.insert .field)
    | some .rightParen => advance (.insert .valuesKeyword)
    | _ => unexpected
  | .valuesKeyword => expect t .values (.insert .valuesOpen)
  | .valuesOpen =>
    if t.is .leftParen then do
      change (·.addRow)
      advance (.insert .value)
    else unexpected
  | .value => do
    let text ← value t
    attempt (·.addValue text)
    advance (.insert .valuesNext)
  | .valuesNext =>
    match t.keyword? with
    | some .comma => advance (.insert .value)
    | some .rightParen => do
      let expected ← look (·.statement.fields.length)
      let (_, row) ← require (·.currentRow)
      if row.length ≠ expected then refuse (.breaks (.valueCount expected row.length))
      else do
        change fun d => { d with openRow := none }
        advance (.insert .rowComma)
    | _ => unexpected
  | .rowComma => expect t .comma (.insert .valuesOpen)

def updateStep (t : Token) : UpdatePlace → ParserM State
  | .table => do
    let table ← identifier t
    change (·.addTable table)
    advance (.update .set)
  | .set => expect t .set (.update .field)
  | .field => do
    let field ← identifier t
    change (·.addNewField field)
    change fun d => { d with pendingField := some field }
    advance (.update .equal)
  | .equal => expect t .equal (.update .value)
  | .value => do
    let text ← value t
    match ← look (·.pendingField) with
    | none => refuse (.internal "UPDATE value without a target column")
    | some field => do
      change fun d => { d with pendingField := none }
      change fun d =>
        let updates := d.statement.updates.set field text
        { d with statement := { d.statement with updates } }
      advance (.update .commaOrWhere)
  | .commaOrWhere =>
    match t.keyword? with
    | some .comma => advance (.update .field)
    | some .whereClause => advance (.filter .field)
    | _ => unexpected

def deleteStep (t : Token) : DeletePlace → ParserM State
  | .table => do
    let table ← identifier t
    change (·.addTable table)
    advance (.delete .whereKeyword)
  | .whereKeyword => expect t .whereClause (.filter .field)

end SqlReader.ParserM
