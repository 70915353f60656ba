import SqlReader.Grammar.Monad

/-!
# Views, indexes, users and privileges
-/

namespace SqlReader

namespace Draft

def orderLastColumn (order : SortOrder) (index : Index) : Except Refusal Index :=
  match modifyLast? (fun column : IndexColumn => { column with order }) index.columns with
  | some columns => .ok { index with columns }
  | none => .error (.internal "index has no open column")

def action? : Keyword → Option Action
  | .select => some .select
  | .insert => some .insert
  | .update => some .update
  | .delete => some .delete
  | .allPrivileges => some .all
  | _ => none

/-- The word that introduces the users: `TO` when granting, `FROM` when revoking. -/
def granteeWord? : Kind → Option Keyword
  | .grant => some .toClause
  | .revoke => some .fromClause
  | _ => none

end Draft

namespace ParserM

/-- Reads a view.  Its query is kept as it is written. -/
def viewStep (t : Token) : ViewPlace → ParserM State
  | .name => do
    let view ← identifier t
    change (·.addTable view)
    advance (.view .columnsOrAs)
  | .columnsOrAs =>
    match t.keyword? with
    | some .leftParen => advance (.view .field)
    | some .as => advance (.view .query)
    | _ => unexpected
  | .field => do
    let field ← identifier t
    change (·.addField field)
    advance (.view .fieldsNext)
  | .fieldsNext =>
    match t.keyword? with
    | some .comma => advance (.view .field)
    | some .rightParen => advance (.view .asKeyword)
    | _ => unexpected
  | .asKeyword => expect t .as (.view .query)
  | .query =>
    if t.is .select then do
      let query ← takeRest
      change fun d =>
        { d with statement := { d.statement with viewSelect := some (String.ofList query) } }
      return .done
    else unexpected

def indexStep (t : Token) : IndexPlace → ParserM State
  | .name => do
    let name ← identifier t
    change fun d => { d with statement := { d.statement with index := some ⟨name, []⟩ } }
    advance (.index .on)
  | .on => expect t .on (.index .table)
  | .table => do
    let table ← identifier t
    change (·.addTable table)
    advance (.index .opening)
  | .opening => expect t .leftParen (.index .field)
  | .field => do
    let name ← identifier t
    attempt (·.modifyIndex fun index =>
      .ok { index with columns := index.columns ++ [⟨name, .ascending⟩] })
    change (·.addField name)
    advance (.index .orderOrNext)
  | .orderOrNext =>
    match t.keyword? with
    | some .asc | some .desc => do
      attempt (·.modifyIndex (Draft.orderLastColumn t.sortOrder))
      advance (.index .next)
    | some .comma => advance (.index .field)
    | some .rightParen => advance .done
    | _ => unexpected
  | .next =>
    match t.keyword? with
    | some .comma => advance (.index .field)
    | some .rightParen => advance .done
    | _ => unexpected

def userStep (t : Token) : UserPlace → ParserM State
  | .name => do
    let user ← identifier t
    change (·.addUser user)
    advance (.user .identifiedBy)
  | .identifiedBy => expect t .identifiedBy (.user .password)
  | .password => do
    let password ← value t
    change fun d => { d with statement := { d.statement with password := some password } }
    advance .done

def privilegeStep (t : Token) : PrivilegePlace → ParserM State
  | .action =>
    match t.keyword?.bind Draft.action? with
    | none => unexpected
    | some action => do
      change fun d =>
        let privileges := d.statement.privileges ++ [⟨action, []⟩]
        { d with statement := { d.statement with privileges } }
      advance (.privilege .columnsOrNext)
  | .columnsOrNext =>
    match t.keyword? with
    | some .leftParen => advance (.privilege .column)
    | some .comma => advance (.privilege .action)
    | some .onTable | some .on => advance (.privilege .table)
    | _ => unexpected
  | .column => do
    let column ← identifier t
    change (·.addNewField column)
    attempt (·.modifyLastPrivilege fun p => { p with columns := p.columns ++ [column] })
    advance (.privilege .columnsNext)
  | .columnsNext =>
    match t.keyword? with
    | some .comma => advance (.privilege .column)
    | some .rightParen => advance (.privilege .commaOrOn)
    | _ => unexpected
  | .commaOrOn =>
    match t.keyword? with
    | some .comma => advance (.privilege .action)
    | some .onTable | some .on => advance (.privilege .table)
    | _ => unexpected
  | .table => do
    let table ← identifier t
    change (·.addTable table)
    advance (.privilege .tablesNext)
  | .tablesNext =>
    match t.keyword? with
    | some .comma => advance (.privilege .table)
    | some k => do
      if Draft.granteeWord? (← look (·.statement.kind)) = some k then advance (.privilege .grantee)
      else unexpected
    | none => unexpected
  | .grantee => do
    let user ← identifier t
    change (·.addUser user)
    advance (.privilege .granteeComma)
  | .granteeComma => expect t .comma (.privilege .grantee)

end ParserM

end SqlReader
