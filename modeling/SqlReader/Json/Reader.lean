import SqlReader.Json.Basic

/-!
# Reading JSON

A reader takes a document off the start of a text and returns the rest.  Nested
documents are read with a bound on the nesting, and the length of the text
bounds the nesting of any document in it.
-/

namespace SqlReader.Json

def isBlank (c : Char) : Bool := c == ' ' || c == '\t' || c == '\n' || c == '\r'

def skipBlank (cs : List Char) : List Char := cs.dropWhile isBlank

/-- The rest of a string whose opening quote has been read: what is written up to
the closing quote, and the text after it. -/
def splitString : List Char → Option (List Char × List Char)
  | [] => none
  | '"' :: cs => some ([], cs)
  | '\\' :: 'u' :: a :: b :: c :: d :: cs =>
    if (hex4? a b c d).isSome then
      (splitString cs).map fun p => ('\\' :: 'u' :: a :: b :: c :: d :: p.1, p.2)
    else none
  | '\\' :: c :: cs =>
    if (unescape? c).isSome then (splitString cs).map fun p => ('\\' :: c :: p.1, p.2) else none
  | c :: cs =>
    if c == '\\' || c.toNat < 0x20 then none
    else (splitString cs).map fun p => (c :: p.1, p.2)

def splitDigits (cs : List Char) : List Char × List Char :=
  (cs.takeWhile Char.isDigit, cs.dropWhile Char.isDigit)

/-- Digits without a needless leading zero. -/
def splitWhole (cs : List Char) : Option (List Char × List Char) :=
  match splitDigits cs with
  | ([], _) => none
  | ('0' :: _ :: _, _) => none
  | parts => some parts

def splitFraction : List Char → Option (List Char × List Char)
  | '.' :: cs =>
    match splitDigits cs with
    | ([], _) => none
    | (digits, rest) => some ('.' :: digits, rest)
  | cs => some ([], cs)

def splitSign : List Char → List Char × List Char
  | '+' :: cs => (['+'], cs)
  | '-' :: cs => (['-'], cs)
  | cs => ([], cs)

def splitExponent : List Char → Option (List Char × List Char)
  | c :: cs =>
    if c == 'e' || c == 'E' then
      let (sign, cs) := splitSign cs
      match splitDigits cs with
      | ([], _) => none
      | (digits, rest) => some (c :: sign ++ digits, rest)
    else some ([], c :: cs)
  | [] => some ([], [])

def splitNumber (cs : List Char) : Option (List Char × List Char) := do
  let (sign, cs) := match cs with
    | '-' :: cs => (['-'], cs)
    | cs => ([], cs)
  let (whole, cs) ← splitWhole cs
  let (fraction, cs) ← splitFraction cs
  let (exponent, cs) ← splitExponent cs
  return (sign ++ whole ++ fraction ++ exponent, cs)

mutual

/-- Reads a document nested at most `fuel` deep. -/
def readValue : Nat → List Char → Option (Json × List Char)
  | 0, _ => none
  | fuel + 1, cs =>
    match skipBlank cs with
    | 'n' :: 'u' :: 'l' :: 'l' :: cs => some (null, cs)
    | 't' :: 'r' :: 'u' :: 'e' :: cs => some (bool true, cs)
    | 'f' :: 'a' :: 'l' :: 's' :: 'e' :: cs => some (bool false, cs)
    | '"' :: cs => (splitString cs).map fun p => (string p.1, p.2)
    | '[' :: cs =>
      match skipBlank cs with
      | ']' :: cs => some (array [], cs)
      | cs => (readItems fuel cs).map fun p => (array p.1, p.2)
    | '\x7b' :: cs =>
      match skipBlank cs with
      | '\x7d' :: cs => some (object [], cs)
      | cs => (readMembers fuel cs).map fun p => (object p.1, p.2)
    | cs => (splitNumber cs).map fun p => (number p.1, p.2)

def readItems : Nat → List Char → Option (List Json × List Char)
  | 0, _ => none
  | fuel + 1, cs => do
    let (item, cs) ← readValue fuel cs
    match skipBlank cs with
    | ',' :: cs => (readItems fuel cs).map fun p => (item :: p.1, p.2)
    | ']' :: cs => some ([item], cs)
    | _ => none

def readMembers : Nat → List Char → Option (List (List Char × Json) × List Char)
  | 0, _ => none
  | fuel + 1, cs => do
    let (key, cs) ← match skipBlank cs with
      | '"' :: cs => splitString cs
      | _ => none
    let cs ← match skipBlank cs with
      | ':' :: cs => some cs
      | _ => none
    let (value, cs) ← readValue fuel cs
    match skipBlank cs with
    | ',' :: cs => (readMembers fuel cs).map fun p => ((key, value) :: p.1, p.2)
    | '\x7d' :: cs => some ([(key, value)], cs)
    | _ => none

end

def parse? (cs : List Char) : Option Json :=
  match readValue (cs.length + 1) cs with
  | some (j, rest) => if (skipBlank rest).isEmpty then some j else none
  | none => none

end SqlReader.Json
