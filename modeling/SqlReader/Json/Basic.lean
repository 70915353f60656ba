/-!
# JSON documents

A document keeps its strings and numbers as they are written, and the members
of an object in their order with repetitions.  `encode` and `decode` lead from a
text to its written form and back; a written string with an unpaired surrogate
stands for no text.
-/

namespace SqlReader

inductive Json
  | null
  | bool (value : Bool)
  | number (written : List Char)
  | string (written : List Char)
  | array (items : List Json)
  | object (members : List (List Char × Json))

namespace Json

/-! ## Strings -/

def hexValue? (c : Char) : Option Nat :=
  let n := c.toNat
  if 48 ≤ n && n ≤ 57 then some (n - 48)
  else if 65 ≤ n && n ≤ 70 then some (n - 55)
  else if 97 ≤ n && n ≤ 102 then some (n - 87)
  else none

def hex4? (a b c d : Char) : Option Nat := do
  return ((← hexValue? a) * 16 + (← hexValue? b)) * 256 + (← hexValue? c) * 16 + (← hexValue? d)

def hexDigit (n : Nat) : Char := if n < 10 then Char.ofNat (48 + n) else Char.ofNat (87 + n)

def escape (c : Char) : List Char :=
  if c == '"' then ['\\', '"']
  else if c == '\\' then ['\\', '\\']
  else if c == '\x08' then ['\\', 'b']
  else if c == '\x0c' then ['\\', 'f']
  else if c == '\n' then ['\\', 'n']
  else if c == '\r' then ['\\', 'r']
  else if c == '\t' then ['\\', 't']
  else if c.toNat < 0x20 then
    ['\\', 'u', '0', '0', hexDigit (c.toNat / 16), hexDigit (c.toNat % 16)]
  else [c]

/-- The written form of a text, without the quotes. -/
def encode (cs : List Char) : List Char := cs.flatMap escape

def unescape? (c : Char) : Option Char :=
  if c == '"' || c == '\\' || c == '/' then some c
  else if c == 'b' then some '\x08'
  else if c == 'f' then some '\x0c'
  else if c == 'n' then some '\n'
  else if c == 'r' then some '\r'
  else if c == 't' then some '\t'
  else none

def decode : List Char → Option (List Char)
  | [] => some []
  | '\\' :: 'u' :: a :: b :: c :: d :: cs => do
    let high ← hex4? a b c d
    if 0xD800 ≤ high && high < 0xDC00 then
      match cs with
      | '\\' :: 'u' :: a :: b :: c :: d :: cs => do
        let low ← hex4? a b c d
        if 0xDC00 ≤ low && low < 0xE000 then
          let code := 0x10000 + (high - 0xD800) * 0x400 + (low - 0xDC00)
          return Char.ofNat code :: (← decode cs)
        else none
      | _ => none
    else if 0xDC00 ≤ high && high < 0xE000 then none
    else return Char.ofNat high :: (← decode cs)
  | '\\' :: c :: cs => do return (← unescape? c) :: (← decode cs)
  | c :: cs => if c == '\\' then none else (decode cs).map (c :: ·)

/-! ## Building and inspecting documents -/

def ofText (s : String) : Json := string (encode s.toList)

def text? : Json → Option String
  | string written => (decode written).map String.ofList
  | _ => none

def bool? : Json → Option Bool
  | bool b => some b
  | _ => none

def items? : Json → Option (List Json)
  | array items => some items
  | _ => none

def natural? : Json → Option Nat
  | number written =>
    if written.all Char.isDigit then
      some (written.foldl (fun n c => 10 * n + (c.toNat - '0'.toNat)) 0)
    else none
  | _ => none

def ofNat (n : Nat) : Json := number (Nat.toDigits 10 n)

def ofList (f : α → Json) (as : List α) : Json := array (as.map f)

def ofOption (f : α → Json) : Option α → Json
  | none => null
  | some a => f a

def ofFields (fields : List (String × Json)) : Json :=
  object (fields.map fun p => (encode p.1.toList, p.2))

def list? (f : Json → Option α) (j : Json) : Option (List α) := j.items? >>= (·.mapM f)

/-- The fields of a record with the given names, in the order of the names.  A
list gives all of them in order.  An object gives each at most once, may leave
some out and may have other members. -/
def fields? (names : List String) : Json → Option (List (Option Json))
  | array items => if items.length = names.length then some (items.map some) else none
  | object members => do
    let members ← members.mapM fun p => do return (String.ofList (← decode p.1), p.2)
    names.mapM fun name =>
      match members.filter (·.1 == name) with
      | [] => some none
      | [p] => some (some p.2)
      | _ => none
  | _ => none

def required (f : Json → Option α) (field : Option Json) : Option α := field >>= f

def optional (f : Json → Option α) : Option Json → Option (Option α)
  | none | some null => some none
  | some j => (f j).map some

/-- A case by its name, with the data of the case if it is written with some. -/
def case? : Json → Option (String × Option Json)
  | string written => do return (String.ofList (← decode written), none)
  | object [(key, value)] => do return (String.ofList (← decode key), some value)
  | _ => none

/-- A case without data: its name alone, or its name with null. -/
def plainCase? (cases : List α) (name : α → String) (j : Json) : Option α :=
  match j.case? with
  | some (found, none) | some (found, some null) => cases.find? (name · == found)
  | _ => none

end Json

end SqlReader
