/-!
# Command lines

The options come first, then a command with its arguments.  An option that waits
for its value takes the next argument that does not look like an option; the
value is recorded when the next option comes or the arguments end.
-/

namespace SqlReader

inductive Command
  | parse (statements : List String)
  | check (file : Option String)
  | tokens (statement : String)
  | vocabulary
  | repl
  deriving DecidableEq

structure Options where
  config : Option String := none
  logLevel : Option String := none
  format : Option String := none
  deriving DecidableEq

structure Invocation where
  options : Options
  command : Option Command
  deriving DecidableEq

/-- Why a command line is not carried out: help or the version is asked for, or
something is wrong with it. -/
inductive ArgumentFault
  | help
  | version
  | missingArgument
  | unknownArgument
  | unknownCommand
  | missingValue
  | repeatedOption
  /-- A value is attached to an option that takes none. -/
  | extraValue
  deriving DecidableEq

inductive OptionName
  | config | logLevel | format
  deriving DecidableEq

inductive ArgumentShape
  /-- The mark after which nothing is an option. -/
  | separator
  /-- An option in full, with the value attached to it. -/
  | long (name : List Char) (value : Option (List Char))
  /-- An option of one letter, with what follows the letter. -/
  | short (letter : Char) (rest : List Char)
  | plain
  deriving DecidableEq

def ArgumentShape.of (arg : String) : ArgumentShape :=
  match arg.toList with
  | ['-', '-'] => .separator
  | '-' :: '-' :: cs =>
    match cs.dropWhile (· != '=') with
    | '=' :: value => .long (cs.takeWhile (· != '=')) (some value)
    | _ => .long cs none
  | '-' :: c :: cs => .short c cs
  | _ => .plain

namespace Options

def get : Options → OptionName → Option String
  | o, .config => o.config
  | o, .logLevel => o.logLevel
  | o, .format => o.format

/-- Records the value of an option, which may be given only once.  The path of a
file is not empty. -/
def record (o : Options) (name : OptionName) (value : String) : Except ArgumentFault Options :=
  if (o.get name).isSome then .error .repeatedOption
  else
    match name with
    | .config =>
      if value = "" then .error .missingValue else .ok { o with config := some value }
    | .logLevel => .ok { o with logLevel := some value }
    | .format => .ok { o with format := some value }

end Options

/-- Options read so far, and the one whose value is awaited or not yet recorded. -/
structure Reading where
  options : Options := {}
  pending : Option (OptionName × Option String) := none

namespace Reading

def awaits (r : Reading) : Bool := r.pending.any (·.2.isNone)

def settle (r : Reading) : Except ArgumentFault Options :=
  match r.pending with
  | none => .ok r.options
  | some (_, none) => .error .missingValue
  | some (name, some value) => r.options.record name value

def begin (r : Reading) (name : OptionName) (value : Option (List Char)) :
    Except ArgumentFault Reading := do
  let options ← r.settle
  match value with
  | none => return ⟨options, some (name, none)⟩
  | some cs => return ⟨← options.record name (String.ofList cs), none⟩

def stop (r : Reading) (fault : ArgumentFault) (value : Option (List Char)) : ArgumentFault :=
  if value.isSome then .extraValue
  else
    match r.settle with
    | .ok _ => fault
    | .error earlier => earlier

def long (r : Reading) (name : String) (value : Option (List Char)) :
    Except ArgumentFault Reading :=
  match name with
  | "config" => r.begin .config value
  | "log-level" => r.begin .logLevel value
  | "format" => r.begin .format value
  | "help" => .error (r.stop .help value)
  | "version" => .error (r.stop .version value)
  | _ => .error .unknownArgument

def attached : List Char → Option (List Char)
  | [] => none
  | '=' :: cs => some cs
  | cs => some cs

def short (r : Reading) (letter : Char) (rest : List Char) : Except ArgumentFault Reading :=
  if letter = 'c' then r.begin .config (attached rest)
  else if letter = 'f' then r.begin .format (attached rest)
  else if letter = 'h' then .error (r.stop .help none)
  else if letter = 'V' then .error (r.stop .version none)
  else .error .unknownArgument

end Reading

/-- The arguments after the name of a command: at most `limit` of them.  Only
help is an option here; before it, the arguments read so far must be valid. -/
def readArguments (limit : Option Nat) (valid : List String → Bool) :
    List String → List String → Except ArgumentFault (List String)
  | found, [] => .ok found
  | found, arg :: rest =>
    match ArgumentShape.of arg with
    | .separator =>
      if limit.all (found.length + rest.length ≤ ·) then .ok (found ++ rest)
      else .error .unknownArgument
    | .long name value =>
      if name = "help".toList then
        .error (if value.isSome then .extraValue else if valid found then .help else .missingValue)
      else .error .unknownArgument
    | .short letter _ =>
      if letter = 'h' then .error (if valid found then .help else .missingValue)
      else .error .unknownArgument
    | .plain =>
      if limit.all (found.length + 1 ≤ ·) then readArguments limit valid (found ++ [arg]) rest
      else .error .unknownArgument

def commandNames : List String := ["parse", "check", "tokens", "vocabulary", "repl", "help"]

def readCommand (name : String) (args : List String) : Except ArgumentFault Command :=
  match name with
  | "parse" => do
    let statements ← readArguments none (fun _ => true) [] args
    if statements.isEmpty then .error .missingArgument else return .parse statements
  | "check" => do
    let found ← readArguments (some 1) (!·.contains "") [] args
    if found.contains "" then .error .missingValue else return .check found.head?
  | "tokens" => do
    let found ← readArguments (some 1) (fun _ => true) [] args
    match found with
    | statement :: _ => return .tokens statement
    | [] => .error .missingArgument
  | "vocabulary" => do
    let _ ← readArguments (some 0) (fun _ => true) [] args
    return .vocabulary
  | "repl" => do
    let _ ← readArguments (some 0) (fun _ => true) [] args
    return .repl
  | "help" =>
    match args with
    | [] => .error .help
    | [topic] => .error (if topic ∈ commandNames then .help else .unknownCommand)
    | _ => .error .unknownCommand
  | _ => .error .unknownCommand

def readInvocation (r : Reading) : List String → Except ArgumentFault Invocation
  | [] => do return ⟨← r.settle, none⟩
  | arg :: rest =>
    if !r.awaits && arg ∈ commandNames then do
      let command ← readCommand arg rest
      return ⟨← r.settle, some command⟩
    else
      match ArgumentShape.of arg with
      | .separator =>
        match rest with
        | [] => do return ⟨← r.settle, none⟩
        | next :: _ =>
          .error (if next ∈ commandNames then .unknownArgument else .unknownCommand)
      | .long name value => do
        let r ← r.long (String.ofList name) value
        readInvocation r rest
      | .short letter attachment => do
        let r ← r.short letter attachment
        readInvocation r rest
      | .plain =>
        match r.pending with
        | some (name, none) => readInvocation { r with pending := some (name, some arg) } rest
        | _ => .error .unknownCommand

def Invocation.parse (args : List String) : Except ArgumentFault Invocation :=
  readInvocation {} args

end SqlReader
