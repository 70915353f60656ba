import SqlReader.Statement.Basic
import SqlReader.Text.Quoted

/-!
# The outline of a statement

A layout for people: every part on a line of its own, named, and indented by
four spaces for each level.
-/

namespace SqlReader

inductive Outline
  | leaf (text : String)
  /-- Named parts between braces, after the name of the whole. -/
  | record (name : String) (parts : List (String × Outline))
  /-- A part between parentheses, after the name of the whole. -/
  | wrapped (name : String) (part : Outline)
  | list (items : List Outline)
  /-- Keys and values between braces. -/
  | map (entries : List (String × Outline))

namespace Outline

def margin (depth : Nat) : String := String.ofList (List.replicate (4 * depth) ' ')

mutual

/-- The lines of an outline whose first line is under way at the given depth. -/
def render (depth : Nat) : Outline → String
  | leaf text => text
  | record name parts =>
    name ++ " \x7b\n" ++ renderParts (depth + 1) parts ++ margin depth ++ "\x7d"
  | wrapped name part =>
    name ++ "(\n" ++ margin (depth + 1) ++ render (depth + 1) part ++ ",\n" ++ margin depth ++ ")"
  | list [] => "[]"
  | list (item :: items) =>
    "[\n" ++ margin (depth + 1) ++ render (depth + 1) item ++ ",\n" ++
      renderItems (depth + 1) items ++ margin depth ++ "]"
  | map [] => "\x7b\x7d"
  | map ((key, value) :: entries) =>
    "\x7b\n" ++ margin (depth + 1) ++ key ++ ": " ++ render (depth + 1) value ++ ",\n" ++
      renderParts (depth + 1) entries ++ margin depth ++ "\x7d"

def renderParts (depth : Nat) : List (String × Outline) → String
  | [] => ""
  | (name, part) :: parts =>
    margin depth ++ name ++ ": " ++ render depth part ++ ",\n" ++ renderParts depth parts

def renderItems (depth : Nat) : List Outline → String
  | [] => ""
  | item :: items => margin depth ++ render depth item ++ ",\n" ++ renderItems depth items

end

def text (s : String) : Outline := leaf (Text.Quoted.text s)

def bool (b : Bool) : Outline := leaf (if b then "true" else "false")

def texts (items : List String) : Outline := list (items.map text)

def option (f : α → Outline) : Option α → Outline
  | none => leaf "None"
  | some a => wrapped "Some" (f a)

end Outline

open Outline

def Operand.outline : Operand → Outline
  | .field s => wrapped "Field" (Outline.text s)
  | .literal s => wrapped "Literal" (Outline.text s)

def Predicate.outline : Predicate → Outline
  | .compare op right => record "Compare" [("operator", leaf op.name), ("right", right.outline)]
  | .between negated low high =>
    record "Between" [("negated", bool negated), ("low", text low), ("high", text high)]
  | .inList negated values => record "In" [("negated", bool negated), ("values", texts values)]
  | .like negated pattern => record "Like" [("negated", bool negated), ("pattern", text pattern)]

def Condition.outline (c : Condition) : Outline :=
  record "Condition"
    [("left", c.left.outline), ("predicate", option Predicate.outline c.predicate)]

def Reference.outline (r : Reference) : Outline :=
  record "ForeignKeyTarget" [("table", text r.table), ("column", text r.column)]

def Column.outline (c : Column) : Outline :=
  record "ColumnDefinition" [
    ("name", text c.name),
    ("data_type", leaf c.dataType.name),
    ("length", option (fun n => leaf (toString n.toNat)) c.length),
    ("not_null", bool c.notNull),
    ("unique", bool c.unique),
    ("primary_key", bool c.primaryKey),
    ("foreign_key", bool c.foreignKey),
    ("references", option Reference.outline c.references),
    ("default", option text c.default),
    ("constraints", list (c.constraints.map (leaf ·.name))),
    ("check_conditions", list (c.checks.map Condition.outline)),
    ("check_operators", list (c.checkConnectives.map (leaf ·.name)))]

def OrderItem.outline (o : OrderItem) : Outline :=
  record "OrderByItem" [("column", text o.column), ("order", leaf o.order.name)]

def IndexColumn.outline (c : IndexColumn) : Outline :=
  record "IndexColumn" [("name", text c.name), ("order", leaf c.order.name)]

def Index.outline (i : Index) : Outline :=
  record "IndexDefinition"
    [("name", text i.name), ("columns", list (i.columns.map IndexColumn.outline))]

def Privilege.outline (p : Privilege) : Outline :=
  record "Privilege" [("action", leaf p.action.name), ("columns", texts p.columns)]

def Statement.outline (s : Statement) : Outline :=
  record "Statement" [
    ("kind", leaf s.kind.name),
    ("tables", texts s.tables),
    ("fields", texts s.fields),
    ("conditions", list (s.conditions.map Condition.outline)),
    ("condition_operators", list (s.connectives.map (leaf ·.name))),
    ("updates", map (s.updates.map fun p => (Text.Quoted.text p.1, text p.2))),
    ("inserts", list (s.inserts.map texts)),
    ("columns", list (s.columns.map Column.outline)),
    ("view_select", option text s.viewSelect),
    ("order_by", list (s.orderBy.map OrderItem.outline)),
    ("index", option Index.outline s.index),
    ("privileges", list (s.privileges.map Privilege.outline)),
    ("users", texts s.users),
    ("password", option text s.password)]

end SqlReader
