import SqlReader.Command.Execution

/-!
# The program

Reads the arguments, the environment, the files that the command line names and
the standard input, and carries the command out.
-/

namespace SqlReader

def addFile (folder : Folder) (path : String) : IO Folder := do
  try
    let bytes ← IO.FS.readBinFile path
    return folder.put (.ofString path) bytes
  catch _ => return folder

/-- The files that a command line may read. -/
def neededFiles (i : Invocation) : List String :=
  [i.options.config.getD defaultConfigFile] ++
    (match i.command with
      | some (.check (some path)) => [path]
      | _ => [])

def readsInput (i : Invocation) : Bool :=
  match i.command with
  | none | some .repl | some (.check none) => true
  | _ => false

def usage : String :=
  "usage: stepql [-c CONFIG] [--log-level LEVEL] [-f FORMAT] [COMMAND]\n\n" ++
  "commands: parse STATEMENT..., check [FILE], tokens STATEMENT, vocabulary, repl, help\n"

def ArgumentFault.message : ArgumentFault → String
  | help => usage
  | version => "stepql 0.1.0\n"
  | missingArgument => "error: a required argument is missing\n"
  | unknownArgument => "error: unexpected argument\n"
  | unknownCommand => "error: unrecognized subcommand\n"
  | missingValue => "error: a value is required\n"
  | repeatedOption => "error: an option cannot be used multiple times\n"
  | extraValue => "error: an option takes no value\n"

def ArgumentFault.exitCode : ArgumentFault → UInt32
  | help | version => 0
  | _ => 2

def runProgram (args : List String) : IO UInt32 := do
  let stdout ← IO.getStdout
  let stderr ← IO.getStderr
  match Invocation.parse args with
  | .error fault =>
    (if fault.exitCode = 0 then stdout else stderr).putStr fault.message
    return fault.exitCode
  | .ok invocation =>
    let folder ← (neededFiles invocation).foldlM addFile {}
    let names := ["STEPQL_LOG_LEVEL", "STEPQL_FORMAT", "STEPQL_MAX_INPUT_LENGTH"]
    let found ← names.filterMapM fun name => do
      return (← IO.getEnv name).map (name, ·)
    match invocation.options.loadConfig folder (.ofVariables fun name => found.lookup name) with
    | .error e =>
      stderr.putStrLn ("Error: failed to load configuration: " ++ e.message)
      return 1
    | .ok config =>
      let input ← if readsInput invocation then (← IO.getStdin).readBinToEnd else pure .empty
      let execution := invocation.run config folder input
      stdout.putStr execution.out
      stdout.flush
      match execution.result with
      | .ok true => return 0
      | .ok false => return 1
      | .error stop =>
        stderr.putStrLn ("Error: " ++ stop.message)
        return 1

end SqlReader

def main (args : List String) : IO UInt32 := SqlReader.runProgram args
