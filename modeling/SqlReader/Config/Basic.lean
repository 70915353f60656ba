import SqlReader.Parser
import SqlReader.Statement.Format

/-!
# Configuration

Settings of the parser, of the output and of the log, with their defaults.  A
later source overrides an earlier one where it differs from the defaults.
-/

namespace SqlReader

structure OutputConfig where
  format : Format := .pretty
  /-- Whether a caret is drawn under the position of an error. -/
  caret : Bool := true
  prompt : String := "->"
  deriving DecidableEq

structure LoggingConfig where
  level : String := "warn"
  deriving DecidableEq

structure Config where
  parser : Settings := {}
  output : OutputConfig := {}
  logging : LoggingConfig := {}
  deriving DecidableEq

/-- A value that differs from the default overrides the current one. -/
def override [DecidableEq α] (default current other : α) : α :=
  if other = default then current else other

namespace Config

def merge (c other : Config) : Config where
  parser := {
    maxInputLength :=
      override ({} : Settings).maxInputLength c.parser.maxInputLength other.parser.maxInputLength
    trailingSemicolon :=
      override ({} : Settings).trailingSemicolon c.parser.trailingSemicolon
        other.parser.trailingSemicolon
    logErrors := override ({} : Settings).logErrors c.parser.logErrors other.parser.logErrors }
  output := {
    format := override ({} : OutputConfig).format c.output.format other.output.format
    caret := override ({} : OutputConfig).caret c.output.caret other.output.caret
    prompt := override ({} : OutputConfig).prompt c.output.prompt other.output.prompt }
  logging := {
    level := override ({} : LoggingConfig).level c.logging.level other.logging.level }

def validate (c : Config) : Except Error Unit :=
  if c.output.prompt = "" then .error (.configuration .emptyPrompt)
  else if Text.lowerString c.logging.level ∈ logLevels then .ok ()
  else .error (.configuration (.unknownLevel c.logging.level))

end Config

structure Environment where
  logLevel : Option String := none
  format : Option String := none
  maxInputLength : Option String := none

namespace Environment

def ofVariables (lookup : String → Option String) : Environment where
  logLevel := lookup "STEPQL_LOG_LEVEL"
  format := lookup "STEPQL_FORMAT"
  maxInputLength := lookup "STEPQL_MAX_INPUT_LENGTH"

def readLimit (text : String) : Except Error UInt64 :=
  match Text.unsigned? text >>= Text.word64? with
  | some n => .ok n
  | none => .error (.configuration (.notANumber text))

/-- The defaults with the values that the environment sets. -/
def config (env : Environment) : Except Error Config := do
  let format ← match env.format with
    | some text => Format.ofName text
    | none => pure ({} : OutputConfig).format
  let maxInputLength ← match env.maxInputLength with
    | some text => readLimit text
    | none => pure ({} : Settings).maxInputLength
  return {
    parser := { maxInputLength }
    output := { format }
    logging := { level := env.logLevel.getD ({} : LoggingConfig).level } }

end Environment

end SqlReader
