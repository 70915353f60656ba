import SqlReader.Json.Basic
import SqlReader.Toml.Reader

/-!
# Writing TOML strings

A string is written in the plainest style that can hold it: between double
quotes if nothing needs an escape, between single quotes if it can stand there
unchanged, over several lines if that avoids escapes, and with escapes
otherwise.
-/

namespace SqlReader.Toml

def longestRun (mark : Char) (cs : List Char) : Nat :=
  (cs.foldl (fun (state : Nat × Nat) c =>
    let run := if c == mark then state.1 + 1 else 0
    (run, max state.2 run)) (0, 0)).2

/-- The styles of a written string. -/
inductive Style
  | basic | literal | longBasic | longLiteral
  deriving DecidableEq

/-- Whether a text holds controls that only escapes can write. -/
def needsEscapes (cs : List Char) : Bool := cs.any fun c => isControl c && c != '\n'

def styleOf (cs : List Char) : Style :=
  let escapes := needsEscapes cs
  let backslash := cs.contains '\\'
  let newline := cs.contains '\n'
  let doubles := longestRun '"' cs
  let singles := longestRun '\'' cs
  if !escapes && !backslash && doubles == 0 && !newline then .basic
  else if !escapes && singles == 0 && !newline then .literal
  else if !escapes && !backslash && doubles ≤ 2 then .longBasic
  else if !escapes && singles ≤ 2 then .longLiteral
  else if newline then .longBasic
  else .basic

def hex4 (n : Nat) : List Char :=
  [n / 4096, n / 256 % 16, n / 16 % 16, n % 16].map fun d => (Json.hexDigit d).toUpper

/-- The characters of a text between double quotes.  In the `long` form two
quotes may stand side by side; `run` of them have just been written. -/
def escapeAll (long : Bool) (run : Nat) : List Char → List Char
  | [] => []
  | c :: cs =>
    if c == '"' then
      if run < (if long then 2 else 0) then c :: escapeAll long (run + 1) cs
      else '\\' :: '"' :: escapeAll long 0 cs
    else
      (if c == '\x08' then ['\\', 'b']
        else if c == '\t' then ['\\', 't']
        else if c == '\n' then (if long then ['\n'] else ['\\', 'n'])
        else if c == '\x0c' then ['\\', 'f']
        else if c == '\r' then ['\\', 'r']
        else if c == '\\' then ['\\', '\\']
        else if isControl c then '\\' :: 'u' :: hex4 c.toNat
        else [c]) ++ escapeAll long 0 cs

def writeString (cs : List Char) : List Char :=
  let start := if cs.contains '\n' then ['\n'] else []
  match styleOf cs with
  | .basic => '"' :: escapeAll false 0 cs ++ ['"']
  | .literal => '\'' :: cs ++ ['\'']
  | .longBasic => ['"', '"', '"'] ++ start ++ escapeAll true 0 cs ++ ['"', '"', '"']
  | .longLiteral => ['\'', '\'', '\''] ++ start ++ cs ++ ['\'', '\'', '\'']

end SqlReader.Toml
