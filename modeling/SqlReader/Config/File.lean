import SqlReader.Config.Basic
import SqlReader.Folder
import SqlReader.Toml.Writer

/-!
# Configuration files

A configuration is written with every setting, one table for each part.  When it
is read, settings that are left out keep their defaults and unknown ones are
ignored.
-/

namespace SqlReader

open Toml.Value

def Format.all : List Format := [json, pretty, debug]

def Settings.ofToml? (v : Toml.Value) : Option Settings := do
  let defaults : Settings := {}
  let [limit, semicolon, log] ←
    v.fields? ["max_input_length", "trailing_semicolon", "log_errors"] | none
  return {
    maxInputLength := ← orDefault (natural? · >>= Text.word64?) defaults.maxInputLength limit
    trailingSemicolon := ← orDefault boolean? defaults.trailingSemicolon semicolon
    logErrors := ← orDefault boolean? defaults.logErrors log }

def OutputConfig.ofToml? (v : Toml.Value) : Option OutputConfig := do
  let defaults : OutputConfig := {}
  let [format, caret, prompt] ← v.fields? ["format", "caret", "prompt"] | none
  return {
    format := ← orDefault (plainCase? Format.all Format.name) defaults.format format
    caret := ← orDefault boolean? defaults.caret caret
    prompt := ← orDefault string? defaults.prompt prompt }

def LoggingConfig.ofToml? (v : Toml.Value) : Option LoggingConfig := do
  let [level] ← v.fields? ["level"] | none
  return { level := ← orDefault string? ({} : LoggingConfig).level level }

namespace Config

def ofToml? (v : Toml.Value) : Option Config := do
  let [parser, output, logging] ← v.fields? ["parser", "output", "logging"] | none
  return {
    parser := ← orDefault Settings.ofToml? {} parser
    output := ← orDefault OutputConfig.ofToml? {} output
    logging := ← orDefault LoggingConfig.ofToml? {} logging }

def parseToml (text : String) : Except Error Config :=
  match Toml.parse? text.toList >>= ofToml? with
  | some c => .ok c
  | none => .error .configParse

def line (key : String) (value : String) : String := key ++ " = " ++ value ++ "\n"

def boolText (b : Bool) : String := if b then "true" else "false"

def stringText (s : String) : String := String.ofList (Toml.writeString s.toList)

def toToml (c : Config) : String :=
  "[parser]\n" ++
  line "max_input_length" (toString c.parser.maxInputLength.toNat) ++
  line "trailing_semicolon" (boolText c.parser.trailingSemicolon) ++
  line "log_errors" (boolText c.parser.logErrors) ++
  "\n[output]\n" ++
  line "format" (stringText c.output.format.name) ++
  line "caret" (boolText c.output.caret) ++
  line "prompt" (stringText c.output.prompt) ++
  "\n[logging]\n" ++
  line "level" (stringText c.logging.level)

def load (folder : Folder) (path : String) : Except Error Config :=
  match folder.readText path with
  | .ok text => parseToml text
  | .error fault => .error (.io fault)

def save (c : Config) (folder : Folder) (path : String) : Except Error Folder :=
  match folder.writeText path c.toToml with
  | .ok folder => .ok folder
  | .error fault => .error (.io fault)

end Config

end SqlReader
