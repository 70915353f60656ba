import SqlReader.Batch
import SqlReader.Command.Arguments
import SqlReader.Config.File

/-!
# Commands

A command turns a configuration, a folder and an input stream into output.
Statements that cannot be parsed are part of the output; only files and streams
that cannot be read stop a command.
-/

namespace SqlReader

open Text

def defaultConfigFile : String := "stepql.toml"

namespace Options

def loadFile (o : Options) (folder : Folder) : Except Error Config :=
  match o.config with
  | some path => Config.load folder path
  | none =>
    if folder.contains defaultConfigFile then Config.load folder defaultConfigFile else .ok {}

def override (o : Options) (c : Config) : Except Error Config := do
  let format ← match o.format with
    | some text => Format.ofName text
    | none => pure c.output.format
  return {
    c with
    output := { c.output with format }
    logging := { c.logging with level := o.logLevel.getD c.logging.level } }

/-- The configuration of a run: the file, then the environment, then the options. -/
def loadConfig (o : Options) (folder : Folder) (env : Environment) : Except Error Config := do
  let file ← o.loadFile folder
  let config ← o.override (file.merge (← env.config))
  config.validate
  return config

end Options

inductive Stop
  | file (path : String) (fault : FileFault)
  | input (fault : FileFault)
  | line (fault : FileFault)
  deriving DecidableEq

def Stop.message : Stop → String
  | file path fault => s!"failed to read {path}: " ++ fault.message
  | input fault => "failed to read statements from stdin: " ++ fault.message
  | line fault => fault.message

/-- What a command did: its output, whether all statements were parsed or why it
stopped, and what it logs. -/
structure Execution where
  out : String
  result : Except Stop Bool
  log : List Record := []

def errorReport (config : Config) (sql : String) (e : Error) : String :=
  (if config.output.caret then ((e.pointer? sql).map (· ++ "\n")).getD "" else "") ++
    e.message ++ "\n"

def renderLine (config : Config) (s : Statement) : String :=
  s.render config.output.format ++ "\n"

def runParse (config : Config) (statements : List String) : Execution :=
  match parseMany config.parser statements with
  | .ok parsed => { out := String.join (parsed.map (renderLine config)), result := .ok true }
  | .error e =>
    { out :=
        String.join (e.parsed.map (renderLine config)) ++
          errorReport config ((statements[e.index]?).getD "") e.source
      result := .ok false }

/-- The lines of a text that hold statements, with their numbers from 1. -/
def statementLines (text : String) : List (Nat × String) :=
  ((lines text.toList).zipIdx 1).filterMap fun (line, number) =>
    match trim line with
    | [] => none
    | '-' :: '-' :: _ => none
    | _ => some (number, String.ofList line)

def lineReport (config : Config) (number : Nat) (sql : String) :
    Except Error Statement → String
  | .ok s => s!"{number}: ok (" ++ s.kind.display ++ ")\n"
  | .error e => s!"{number}: error\n" ++ errorReport config sql e

/-- Parses every statement line of a text by itself. -/
def runCheck (config : Config) (text : String) : Execution :=
  let (numbers, statements) := (statementLines text).unzip
  let results := parseEach config.parser statements
  let entries := (numbers.zip statements).zip results
  let reports := entries.map fun ((number, sql), result) => lineReport config number sql result
  let failed := entries.countP fun (_, result) => !result.isOk
  let count := statements.length
  { out := String.join reports ++ s!"{count} statements, {failed} failed\n"
    result := .ok (failed == 0)
    log := [⟨.info, s!"checked {count} statements, {failed} failed"⟩] }

def Token.listing : Token → String
  | keyword k => "Keyword(" ++ k.name ++ ")"
  | literal s => "Literal(" ++ Quoted.text s ++ ")"
  | word s => "Word(" ++ Quoted.text s ++ ")"
  | unterminated s => "Unterminated(" ++ Quoted.text s ++ ")"
  | endOfText => "End"

def runTokens (statement : String) : Execution where
  out := String.join ((tokenize statement).map fun (offset, t) =>
    padLeft 5 (toString offset) ++ "  " ++ t.listing ++ "\n")
  result := .ok true

def runVocabulary : Execution where
  out := String.join (vocabulary.map fun e => padRight 16 e.text ++ " " ++ e.keyword.name ++ "\n")
  result := .ok true

def byteLines : List UInt8 → List (List UInt8)
  | [] => []
  | b :: bs =>
    if b = 10 then [b] :: byteLines bs
    else
      match byteLines bs with
      | [] => [[b]]
      | line :: rest => (b :: line) :: rest

def isFarewell (sql : List Char) : Bool :=
  lower sql == "exit".toList || lower sql == "quit".toList

/-- A dialogue: every line is a statement, up to a farewell or the end. -/
def dialogue (config : Config) : List (List UInt8) → Execution
  | [] => { out := config.output.prompt ++ " ", result := .ok true }
  | bytes :: rest =>
    let prompt := config.output.prompt ++ " "
    match String.fromUTF8? bytes.toByteArray with
    | none => { out := prompt, result := .error (.line .notText) }
    | some line =>
      let sql := trim line.toList
      if sql.isEmpty then
        let later := dialogue config rest
        { later with out := prompt ++ later.out }
      else if isFarewell sql then { out := prompt, result := .ok true }
      else
        let text := String.ofList sql
        let reply := match parseOne config.parser text with
          | .ok s => renderLine config s
          | .error e => errorReport config text e
        let later := dialogue config rest
        { later with out := prompt ++ reply ++ later.out }

def Command.run (config : Config) (folder : Folder) (input : ByteArray) : Command → Execution
  | parse statements => runParse config statements
  | check (some path) =>
    match folder.readText path with
    | .ok text => runCheck config text
    | .error fault => { out := "", result := .error (.file path fault) }
  | check none =>
    match String.fromUTF8? input with
    | some text => runCheck config text
    | none => { out := "", result := .error (.input .notText) }
  | tokens statement => runTokens statement
  | vocabulary => runVocabulary
  | repl => dialogue config (byteLines input.toList)

/-- Carries out a command line; without a command it is a dialogue. -/
def Invocation.run (i : Invocation) (config : Config) (folder : Folder) (input : ByteArray) :
    Execution :=
  (i.command.getD .repl).run config folder input

end SqlReader
