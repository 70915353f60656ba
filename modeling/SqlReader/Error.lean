import SqlReader.Statement.Basic
import SqlReader.Text.Basic

/-!
# Errors

What can go wrong, by cause.  The wording of every cause is in `message`.
-/

namespace SqlReader

open Text

inductive FileFault
  | missing
  | isDirectory
  | notText
  deriving DecidableEq

def FileFault.message : FileFault → String
  | missing => "No such file or directory (os error 2)"
  | isDirectory => "Is a directory (os error 21)"
  | notText => "stream did not contain valid UTF-8"

inductive ConfigFault
  | emptyPrompt
  | unknownLevel (level : String)
  | unknownFormat (format : String)
  | notANumber (text : String)
  | other (text : String)
  deriving DecidableEq

def logLevels : List String := ["off", "error", "warn", "info", "debug", "trace"]

def ConfigFault.message : ConfigFault → String
  | emptyPrompt => "prompt cannot be empty"
  | unknownLevel level =>
    s!"unknown log level '{level}', expected one of " ++ ", ".intercalate logLevels
  | unknownFormat format =>
    s!"unknown output format '{format}', expected json, pretty or debug"
  | notANumber text => s!"STEPQL_MAX_INPUT_LENGTH is not a number: {text}"
  | other text => text

/-- The two places where conditions stand. -/
inductive Clause
  | filter | check
  deriving DecidableEq

def Clause.display : Clause → String
  | filter => "WHERE"
  | check => "CHECK"

inductive Reason
  /-- Something else was expected; nothing was found at the end of the text. -/
  | expected (wanted : String) (found : Option String)
  | undefinedColumn (name : String)
  | valueCount (expected found : Nat)
  | unknownKind
  | emptyTableName
  | missingFilter
  | noRows
  | noColumns
  | noDataType (column : String)
  | openForeignKey (column : String)
  | noOperator (clause : Clause) (left : String)
  | emptyColumnName (clause : Clause)
  | notComparison (clause : Clause) (left : String) (operator : Operator)
  | connectiveCount (clause : Clause) (conditions connectives : Nat)
  | other (text : String)
  deriving DecidableEq

def Reason.message : Reason → String
  | expected wanted none => s!"expected {wanted}, found end of input"
  | expected wanted (some fragment) => s!"expected {wanted}, found '{fragment}'"
  | undefinedColumn name => s!"column '{name}' is not defined"
  | valueCount wanted found =>
    s!"value count does not match column count: expected {wanted}, found {found}"
  | unknownKind => "statement kind is not recognized"
  | emptyTableName => "table name is empty"
  | missingFilter => "WHERE is mandatory for UPDATE and DELETE"
  | noRows => "INSERT has no rows"
  | noColumns => "CREATE TABLE has no columns"
  | noDataType column => s!"column '{column}' has no data type"
  | openForeignKey column => s!"foreign key on '{column}' has no referenced column"
  | noOperator clause left => clause.display ++ s!" condition on '{left}' has no operator"
  | emptyColumnName clause => clause.display ++ " condition refers to an empty column name"
  | notComparison clause left operator =>
    clause.display ++ s!" condition on '{left}' uses " ++ operator.display ++ " as a comparison"
  | connectiveCount clause conditions connectives =>
    clause.display ++ s!" has {conditions} conditions but {connectives} AND/OR operators"
  | other text => text

inductive Error
  | io (fault : FileFault)
  /-- A text is not the data form of a statement. -/
  | serialization
  /-- A configuration file cannot be understood. -/
  | configParse
  | syntactic (offset : Nat) (reason : Reason)
  | semantic (offset : Nat) (reason : Reason)
  | inputTooLong (length limit : Nat)
  | configuration (fault : ConfigFault)
  /-- An invariant of the library is broken. -/
  | internal (text : String)
  deriving DecidableEq

namespace Error

def offset? : Error → Option Nat
  | syntactic offset _ => some offset
  | semantic offset _ => some offset
  | _ => none

def isParseError : Error → Bool
  | syntactic _ _ | semantic _ _ | inputTooLong _ _ => true
  | _ => false

def message : Error → String
  | io fault => "I/O error: " ++ fault.message
  | serialization => "Serialization error"
  | configParse => "Configuration parse error"
  | syntactic offset reason => s!"syntax error at offset {offset}: " ++ reason.message
  | semantic offset reason => s!"semantic error at offset {offset}: " ++ reason.message
  | inputTooLong length limit => s!"statement is {length} bytes long, the limit is {limit}"
  | configuration fault => "Configuration error: " ++ fault.message
  | internal text => "Internal error: " ++ text

/-- Number of characters before a byte position; of the whole text if the
position is past its end or inside a character. -/
def pointerColumn (sql : List Char) (offset : Nat) : Nat :=
  ((takeBytes? offset sql).getD sql).length

def pointer? (e : Error) (sql : String) : Option String :=
  e.offset?.map fun offset =>
    let column := pointerColumn sql.toList offset
    sql ++ "\n" ++ String.ofList (List.replicate column ' ') ++ "^"

end Error

end SqlReader
