import SqlReader.Error
import SqlReader.Json.Printer
import SqlReader.Json.Reader

/-!
# The data form of a statement

Records are objects of named fields, cases without data are their names, and
cases with data are objects of one member.  Assignments are an object in the
order of assignment.
-/

namespace SqlReader

open Json

def Operand.toJson : Operand → Json
  | .field s => ofFields [("Field", ofText s)]
  | .literal s => ofFields [("Literal", ofText s)]

def Operand.ofJson? (j : Json) : Option Operand :=
  match j.case? with
  | some ("Field", some data) => data.text?.map .field
  | some ("Literal", some data) => data.text?.map .literal
  | _ => none

def Predicate.toJson : Predicate → Json
  | .compare op right =>
    ofFields [("Compare", ofFields [("operator", ofText op.name), ("right", right.toJson)])]
  | .between negated low high =>
    ofFields [("Between",
      ofFields [("negated", .bool negated), ("low", ofText low), ("high", ofText high)])]
  | .inList negated values =>
    ofFields [("In", ofFields [("negated", .bool negated), ("values", ofList ofText values)])]
  | .like negated pattern =>
    ofFields [("Like", ofFields [("negated", .bool negated), ("pattern", ofText pattern)])]

def Predicate.ofJson? (j : Json) : Option Predicate :=
  match j.case? with
  | some ("Compare", some data) => do
    let [op, right] ← data.fields? ["operator", "right"] | none
    return .compare (← required (plainCase? Operator.all Operator.name) op)
      (← required Operand.ofJson? right)
  | some ("Between", some data) => do
    let [negated, low, high] ← data.fields? ["negated", "low", "high"] | none
    return .between (← required bool? negated) (← required text? low) (← required text? high)
  | some ("In", some data) => do
    let [negated, values] ← data.fields? ["negated", "values"] | none
    return .inList (← required bool? negated) (← required (list? text?) values)
  | some ("Like", some data) => do
    let [negated, pattern] ← data.fields? ["negated", "pattern"] | none
    return .like (← required bool? negated) (← required text? pattern)
  | _ => none

def Condition.toJson (c : Condition) : Json :=
  ofFields [("left", c.left.toJson), ("predicate", ofOption Predicate.toJson c.predicate)]

def Condition.ofJson? (j : Json) : Option Condition := do
  let [left, predicate] ← j.fields? ["left", "predicate"] | none
  return ⟨← required Operand.ofJson? left, ← optional Predicate.ofJson? predicate⟩

def Reference.toJson (r : Reference) : Json :=
  ofFields [("table", ofText r.table), ("column", ofText r.column)]

def Reference.ofJson? (j : Json) : Option Reference := do
  let [table, column] ← j.fields? ["table", "column"] | none
  return ⟨← required text? table, ← required text? column⟩

def lengthOfJson? (j : Json) : Option UInt32 := j.natural? >>= Text.word32?

def Column.toJson (c : Column) : Json :=
  ofFields [
    ("name", ofText c.name),
    ("data_type", ofText c.dataType.name),
    ("length", ofOption (fun n => ofNat n.toNat) c.length),
    ("not_null", .bool c.notNull),
    ("unique", .bool c.unique),
    ("primary_key", .bool c.primaryKey),
    ("foreign_key", .bool c.foreignKey),
    ("references", ofOption Reference.toJson c.references),
    ("default", ofOption ofText c.default),
    ("constraints", ofList (fun k => ofText k.name) c.constraints),
    ("check_conditions", ofList Condition.toJson c.checks),
    ("check_operators", ofList (fun k => ofText k.name) c.checkConnectives)]

def Column.ofJson? (j : Json) : Option Column := do
  let [name, dataType, length, notNull, unique, primaryKey, foreignKey, references, default,
      constraints, checks, connectives] ← j.fields?
    ["name", "data_type", "length", "not_null", "unique", "primary_key", "foreign_key",
      "references", "default", "constraints", "check_conditions", "check_operators"] | none
  return {
    name := ← required text? name
    dataType := ← required (plainCase? DataType.all DataType.name) dataType
    length := ← optional lengthOfJson? length
    notNull := ← required bool? notNull
    unique := ← required bool? unique
    primaryKey := ← required bool? primaryKey
    foreignKey := ← required bool? foreignKey
    references := ← optional Reference.ofJson? references
    default := ← optional text? default
    constraints := ← required (list? (plainCase? Constraint.all Constraint.name)) constraints
    checks := ← required (list? Condition.ofJson?) checks
    checkConnectives :=
      ← required (list? (plainCase? Connective.all Connective.name)) connectives }

def OrderItem.toJson (o : OrderItem) : Json :=
  ofFields [("column", ofText o.column), ("order", ofText o.order.name)]

def OrderItem.ofJson? (j : Json) : Option OrderItem := do
  let [column, order] ← j.fields? ["column", "order"] | none
  return ⟨← required text? column, ← required (plainCase? SortOrder.all SortOrder.name) order⟩

def IndexColumn.toJson (c : IndexColumn) : Json :=
  ofFields [("name", ofText c.name), ("order", ofText c.order.name)]

def IndexColumn.ofJson? (j : Json) : Option IndexColumn := do
  let [name, order] ← j.fields? ["name", "order"] | none
  return ⟨← required text? name, ← required (plainCase? SortOrder.all SortOrder.name) order⟩

def Index.toJson (i : Index) : Json :=
  ofFields [("name", ofText i.name), ("columns", ofList IndexColumn.toJson i.columns)]

def Index.ofJson? (j : Json) : Option Index := do
  let [name, columns] ← j.fields? ["name", "columns"] | none
  return ⟨← required text? name, ← required (list? IndexColumn.ofJson?) columns⟩

def Privilege.toJson (p : Privilege) : Json :=
  ofFields [("action", ofText p.action.name), ("columns", ofList ofText p.columns)]

def Privilege.ofJson? (j : Json) : Option Privilege := do
  let [action, columns] ← j.fields? ["action", "columns"] | none
  return ⟨← required (plainCase? Action.every Action.name) action,
    ← required (list? text?) columns⟩

def Assignments.toJson (a : Assignments) : Json :=
  ofFields (a.map fun p => (p.1, ofText p.2))

/-- Assigns the members of an object in order, so that a repeated column keeps
its first place and its last value. -/
def Assignments.ofJson? : Json → Option Assignments
  | .object members => do
    let pairs ← members.mapM fun p => do
      return (String.ofList (← decode p.1), ← p.2.text?)
    return pairs.foldl (fun a p => a.set p.1 p.2) []
  | _ => none

namespace Statement

def toJson (s : Statement) : Json :=
  ofFields [
    ("kind", ofText s.kind.name),
    ("tables", ofList ofText s.tables),
    ("fields", ofList ofText s.fields),
    ("conditions", ofList Condition.toJson s.conditions),
    ("condition_operators", ofList (fun k => ofText k.name) s.connectives),
    ("updates", s.updates.toJson),
    ("inserts", ofList (ofList ofText) s.inserts),
    ("columns", ofList Column.toJson s.columns),
    ("view_select", ofOption ofText s.viewSelect),
    ("order_by", ofList OrderItem.toJson s.orderBy),
    ("index", ofOption Index.toJson s.index),
    ("privileges", ofList Privilege.toJson s.privileges),
    ("users", ofList ofText s.users),
    ("password", ofOption ofText s.password)]

def ofJson? (j : Json) : Option Statement := do
  let [kind, tables, fields, conditions, connectives, updates, inserts, columns, viewSelect,
      orderBy, index, privileges, users, password] ← j.fields?
    ["kind", "tables", "fields", "conditions", "condition_operators", "updates", "inserts",
      "columns", "view_select", "order_by", "index", "privileges", "users", "password"] | none
  return {
    kind := ← required (plainCase? Kind.all Kind.name) kind
    tables := ← required (list? text?) tables
    fields := ← required (list? text?) fields
    conditions := ← required (list? Condition.ofJson?) conditions
    connectives := ← required (list? (plainCase? Connective.all Connective.name)) connectives
    updates := ← required Assignments.ofJson? updates
    inserts := ← required (list? (list? text?)) inserts
    columns := ← required (list? Column.ofJson?) columns
    viewSelect := ← optional text? viewSelect
    orderBy := ← required (list? OrderItem.ofJson?) orderBy
    index := ← optional Index.ofJson? index
    privileges := ← required (list? Privilege.ofJson?) privileges
    users := ← required (list? text?) users
    password := ← optional text? password }

def parseJson (text : String) : Except Error Statement :=
  match Json.parse? text.toList >>= ofJson? with
  | some s => .ok s
  | none => .error .serialization

end Statement

end SqlReader
