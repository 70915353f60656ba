import SqlReader.Text.Hidden

/-!
# Quoted display

Texts as listings show them: between double quotes, with escapes for the
characters that would not show.
-/

namespace SqlReader.Text.Quoted

def escape (c : Char) : List Char :=
  if c == '\x00' then ['\\', '0']
  else if c == '\t' then ['\\', 't']
  else if c == '\n' then ['\\', 'n']
  else if c == '\r' then ['\\', 'r']
  else if c == '"' || c == '\\' then ['\\', c]
  else if isHidden c then
    ['\\', 'u', '\x7b'] ++ Nat.toDigits 16 c.toNat ++ ['\x7d']
  else [c]

def text (s : String) : String :=
  String.ofList ('"' :: s.toList.flatMap escape ++ ['"'])

def list (items : List String) : String :=
  "[" ++ ", ".intercalate (items.map text) ++ "]"

end SqlReader.Text.Quoted
