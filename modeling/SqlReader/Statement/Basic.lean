import SqlReader.Text.Basic

/-!
# Statements

The typed form of a statement.  One record serves all kinds; the parts that do
not belong to a kind stay empty.  Each enumeration has the name under which it
is written in data, and some also a display form for messages.
-/

namespace SqlReader

inductive Kind
  | unknown | select | insert | update | delete
  | createTable | createView | createIndex | createUser | grant | revoke
  deriving DecidableEq

namespace Kind

def all : List Kind :=
  [unknown, select, insert, update, delete, createTable, createView, createIndex, createUser,
    grant, revoke]

def name : Kind → String
  | unknown => "Unknown"
  | select => "Select"
  | insert => "Insert"
  | update => "Update"
  | delete => "Delete"
  | createTable => "CreateTable"
  | createView => "CreateView"
  | createIndex => "CreateIndex"
  | createUser => "CreateUser"
  | grant => "Grant"
  | revoke => "Revoke"

def display : Kind → String
  | createTable => "Create Table"
  | createView => "Create View"
  | createIndex => "Create Index"
  | createUser => "Create User"
  | kind => kind.name

end Kind

inductive DataType
  | unknown | smallInt | double | dateTime | varchar
  deriving DecidableEq

namespace DataType

def all : List DataType := [unknown, smallInt, double, dateTime, varchar]

def name : DataType → String
  | unknown => "Unknown"
  | smallInt => "SmallInt"
  | double => "Double"
  | dateTime => "DateTime"
  | varchar => "Varchar"

def display : DataType → String
  | unknown => "UNKNOWN"
  | smallInt => "SMALLINT"
  | double => "DOUBLE"
  | dateTime => "DATETIME"
  | varchar => "VARCHAR"

/-- The type that a type name means, in any case; `unknown` if none. -/
def ofName (name : String) : DataType :=
  match Text.upperString name with
  | "SMALLINT" | "INT" => smallInt
  | "DOUBLE" => double
  | "DATETIME" => dateTime
  | "VARCHAR" | "CHAR" => varchar
  | _ => unknown

end DataType

/-- The kinds of column constraint, in the order in which data lists them. -/
inductive Constraint
  | notNull | unique | primaryKey | check | foreignKey | default
  deriving DecidableEq

namespace Constraint

def all : List Constraint := [notNull, unique, primaryKey, check, foreignKey, default]

def name : Constraint → String
  | notNull => "NotNull"
  | unique => "Unique"
  | primaryKey => "PrimaryKey"
  | check => "Check"
  | foreignKey => "ForeignKey"
  | default => "Default"

end Constraint

inductive Operand
  | field (name : String)
  | literal (text : String)
  deriving DecidableEq

namespace Operand

def isField : Operand → Bool
  | field _ => true
  | literal _ => false

def text : Operand → String
  | field s => s
  | literal s => s

end Operand

inductive Operator
  | eq | ne | gt | lt | gte | lte
  | between | notBetween | like | notLike | inList | notInList
  deriving DecidableEq

namespace Operator

def all : List Operator :=
  [eq, ne, gt, lt, gte, lte, between, notBetween, like, notLike, inList, notInList]

def name : Operator → String
  | eq => "Eq"
  | ne => "Ne"
  | gt => "Gt"
  | lt => "Lt"
  | gte => "Gte"
  | lte => "Lte"
  | between => "Between"
  | notBetween => "NotBetween"
  | like => "Like"
  | notLike => "NotLike"
  | inList => "In"
  | notInList => "NotIn"

def display : Operator → String
  | eq => "="
  | ne => "!="
  | gt => ">"
  | lt => "<"
  | gte => ">="
  | lte => "<="
  | between => "BETWEEN"
  | notBetween => "NOT BETWEEN"
  | like => "LIKE"
  | notLike => "NOT LIKE"
  | inList => "IN"
  | notInList => "NOT IN"

def isComparison : Operator → Bool
  | eq | ne | gt | lt | gte | lte => true
  | _ => false

end Operator

inductive Predicate
  | compare (operator : Operator) (right : Operand)
  | between (negated : Bool) (low high : String)
  | inList (negated : Bool) (values : List String)
  | like (negated : Bool) (pattern : String)
  deriving DecidableEq

/-- The operator of a predicate, with the negation folded in. -/
def Predicate.operator : Predicate → Operator
  | compare op _ => op
  | between false _ _ => .between
  | between true _ _ => .notBetween
  | inList false _ => .inList
  | inList true _ => .notInList
  | like false _ => .like
  | like true _ => .notLike

/-- A condition of a filter or a check.  The predicate is missing until its
operator has been read. -/
structure Condition where
  left : Operand
  predicate : Option Predicate := none
  deriving DecidableEq

def Condition.operator? (c : Condition) : Option Operator := c.predicate.map (·.operator)

/-- The link between two conditions.  Chains are evaluated from left to right. -/
inductive Connective
  | and | or
  deriving DecidableEq

namespace Connective

def all : List Connective := [and, or]

def name : Connective → String
  | and => "And"
  | or => "Or"

end Connective

inductive SortOrder
  | ascending | descending
  deriving DecidableEq

namespace SortOrder

def all : List SortOrder := [ascending, descending]

def name : SortOrder → String
  | ascending => "Ascending"
  | descending => "Descending"

end SortOrder

structure Reference where
  table : String
  column : String
  deriving DecidableEq

/-- A column of a table definition.  The flags repeat what `constraints` lists
in source order; `checks` are linked by `checkConnectives`. -/
structure Column where
  name : String
  dataType : DataType := .unknown
  length : Option UInt32 := none
  notNull : Bool := false
  unique : Bool := false
  primaryKey : Bool := false
  foreignKey : Bool := false
  references : Option Reference := none
  default : Option String := none
  constraints : List Constraint := []
  checks : List Condition := []
  checkConnectives : List Connective := []
  deriving DecidableEq

structure OrderItem where
  column : String
  order : SortOrder
  deriving DecidableEq

structure IndexColumn where
  name : String
  order : SortOrder
  deriving DecidableEq

structure Index where
  name : String
  columns : List IndexColumn
  deriving DecidableEq

inductive Action
  | select | insert | update | delete | all
  deriving DecidableEq

namespace Action

def every : List Action := [select, insert, update, delete, all]

def name : Action → String
  | select => "Select"
  | insert => "Insert"
  | update => "Update"
  | delete => "Delete"
  | all => "All"

end Action

structure Privilege where
  action : Action
  columns : List String
  deriving DecidableEq

/-- Column values in the order of first assignment. -/
abbrev Assignments := List (String × String)

/-- Gives a column its value: in place if it has one, at the end otherwise. -/
def Assignments.set : Assignments → String → String → Assignments
  | [], column, value => [(column, value)]
  | (c, v) :: rest, column, value =>
    if c = column then (c, value) :: rest else (c, v) :: Assignments.set rest column value

theorem Assignments.set_of_notMem {updates : Assignments} {column : String} (value : String)
    (h : column ∉ updates.map (·.1)) : updates.set column value = updates ++ [(column, value)] := by
  induction updates with
  | nil => rfl
  | cons entry updates ih =>
      simp only [List.map_cons, List.mem_cons, not_or] at h
      rw [Assignments.set, if_neg (Ne.symm h.1), ih h.2]
      rfl

structure Statement where
  kind : Kind := .unknown
  tables : List String := []
  fields : List String := []
  conditions : List Condition := []
  connectives : List Connective := []
  updates : Assignments := []
  inserts : List (List String) := []
  columns : List Column := []
  viewSelect : Option String := none
  orderBy : List OrderItem := []
  index : Option Index := none
  privileges : List Privilege := []
  users : List String := []
  password : Option String := none
  deriving DecidableEq

/-- The column of that name; of several, the one defined last. -/
def Statement.column? (s : Statement) (name : String) : Option Column :=
  s.columns.reverse.find? (·.name == name)

end SqlReader
