import SqlReader.Parser

/-!
# Batches

Many texts at once: one after the other up to the first error, or each by
itself.
-/

namespace SqlReader

structure BatchError where
  parsed : List Statement
  index : Nat
  source : Error

def BatchError.message (e : BatchError) : String :=
  s!"statement {e.index} failed: " ++ e.source.message

/-- Parses texts in order, the first of them with number `index`, after those in
`parsed`, and stops at the first error. -/
def parseAfter (settings : Settings) (index : Nat) (parsed : List Statement) :
    List String → Except BatchError (List Statement)
  | [] => .ok parsed
  | text :: texts =>
    match parseOne settings text with
    | .ok statement => parseAfter settings (index + 1) (parsed ++ [statement]) texts
    | .error source => .error ⟨parsed, index, source⟩

def parseMany (settings : Settings) (texts : List String) :
    Except BatchError (List Statement) :=
  parseAfter settings 0 [] texts

def parseEach (settings : Settings) (texts : List String) : List (Except Error Statement) :=
  texts.map (parseOne settings)

end SqlReader
