import SqlReader.Error
import SqlReader.Statement.Json
import SqlReader.Statement.Outline

/-!
# Output formats
-/

namespace SqlReader

inductive Format
  | json | pretty | debug
  deriving DecidableEq

namespace Format

def name : Format → String
  | json => "json"
  | pretty => "pretty"
  | debug => "debug"

def ofName (text : String) : Except Error Format :=
  match Text.lowerString text with
  | "json" => .ok json
  | "pretty" => .ok pretty
  | "debug" => .ok debug
  | other => .error (.configuration (.unknownFormat other))

end Format

def Statement.render (s : Statement) : Format → String
  | .json => String.ofList s.toJson.compact
  | .pretty => String.ofList (s.toJson.indented 0)
  | .debug => s.outline.render 0

end SqlReader
