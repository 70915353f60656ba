import SqlReader.Grammar.Manipulation
import SqlReader.Grammar.Schema
import SqlReader.Grammar.Table

/-!
# The step of the grammar

One token leads from one state to the next.  The grammar never looks further than
that token; only a view takes the text from its query on as well.
-/

namespace SqlReader.Draft

/-- The kind of statement that a reserved word begins, and the state after it. -/
def opening? : Keyword → Option (Kind × State)
  | .select => some (.select, .select .field)
  | .insertInto => some (.insert, .insert .table)
  | .update => some (.update, .update .table)
  | .deleteFrom => some (.delete, .delete .table)
  | .createTable => some (.createTable, .table .name)
  | .createView => some (.createView, .view .name)
  | .createIndex => some (.createIndex, .index .name)
  | .createUser => some (.createUser, .user .name)
  | .grant => some (.grant, .privilege .action)
  | .revoke => some (.revoke, .privilege .action)
  | _ => none

end SqlReader.Draft

namespace SqlReader.ParserM

def beginStatement (t : Token) : ParserM State :=
  match t.keyword?.bind Draft.opening? with
  | some (kind, next) => do
    change fun d => { d with statement := { d.statement with kind } }
    advance next
  | none => unexpected

/-- Takes the token at the cursor, and gives the state after it. -/
def step (t : Token) : ParserM State := do
  match ← look (·.state) with
  | .beginning => beginStatement t
  | .select place => selectStep t place
  | .order place => orderStep t place
  | .insert place => insertStep t place
  | .update place => updateStep t place
  | .delete place => deleteStep t place
  | .filter place => filterStep t place
  | .table place => tableStep t place
  | .check place => checkStep t place
  | .primaryKey place => primaryKeyStep t place
  | .foreignKey place => foreignKeyStep t place
  | .view place => viewStep t place
  | .index place => indexStep t place
  | .user place => userStep t place
  | .privilege place => privilegeStep t place
  | .done => unexpected

end SqlReader.ParserM
