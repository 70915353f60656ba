/-!
# TOML documents

Values as a document defines them.  A table remembers how it came about, since
that decides which later lines may add to it.
-/

namespace SqlReader.Toml

/-- How a table was defined. -/
inductive Form
  /-- In braces: nothing may be added. -/
  | inline
  /-- By a header of its own, or as the document itself. -/
  | header
  /-- As an enclosing table of a header. -/
  | implicit
  /-- By a dotted key. -/
  | dotted
  deriving DecidableEq

inductive Value
  | string (s : String)
  | integer (n : Int)
  /-- A number with a fraction or an exponent, and whether a float of 64 bits holds it. -/
  | float (held : Bool)
  | boolean (b : Bool)
  /-- A date, a time or both. -/
  | moment
  /-- A list; one of tables grows with every header in double brackets. -/
  | list (growing : Bool) (items : List Value)
  | table (form : Form) (entries : List (String × Value))

abbrev Entries := List (String × Value)

namespace Value

def string? : Value → Option String
  | string s => some s
  | _ => none

def boolean? : Value → Option Bool
  | boolean b => some b
  | _ => none

def natural? : Value → Option Nat
  | integer n => if 0 ≤ n then some n.toNat else none
  | _ => none

mutual

/-- Whether the numbers in a value can be held: integers in 128 bits, with or
without a sign, and floats in 64. -/
def isHeld : Value → Bool
  | integer n => -(2 ^ 127) ≤ n && n < 2 ^ 128
  | float held => held
  | list _ items => areHeld items
  | table _ entries => entriesHeld entries
  | _ => true

def areHeld : List Value → Bool
  | [] => true
  | item :: items => isHeld item && areHeld items

def entriesHeld : List (String × Value) → Bool
  | [] => true
  | (_, value) :: entries => isHeld value && entriesHeld entries

end

/-- The fields of a record with the given names, in the order of the names.  A
table gives them by name and may have other entries that can be held; a list
gives them in order.  Either may leave some out, and a moment leaves all out. -/
def fields? (names : List String) : Value → Option (List (Option Value))
  | table _ entries =>
    if entries.all fun e => e.1 ∈ names || e.2.isHeld then
      some (names.map fun name => entries.lookup name)
    else none
  | list _ items => some ((List.range names.length).map (items[·]?))
  | moment => some (names.map fun _ => none)
  | _ => none

def orDefault (f : Value → Option α) (default : α) : Option Value → Option α
  | none => some default
  | some v => f v

def plainCase? (cases : List α) (name : α → String) : Value → Option α
  | string s => cases.find? (name · == s)
  | table _ [(s, table _ [])] | table _ [(s, list _ [])] => cases.find? (name · == s)
  | _ => none

end Value

namespace Entries

def replace (es : Entries) (key : String) (v : Value) : Entries :=
  es.map fun e => if e.1 = key then (key, v) else e

end Entries

/-- Changes the table at the end of a path, starting from a table.  Tables that
are missing on the way come about as `fresh`; a path goes through the last table
of a growing list, and never through a value or a table in braces.  A dotted
path does not go through a table that has a header, and takes over those that
came about as enclosing ones. -/
def changeAt (fresh : Form) (change : Form → Entries → Option Entries) :
    List String → Form → Entries → Option Entries
  | [], form, entries => change form entries
  | key :: path, _, entries =>
    match entries.lookup key with
    | none => do
      let inner ← changeAt fresh change path fresh []
      return entries ++ [(key, .table fresh inner)]
    | some (.table form inner) =>
      if form = .inline || (fresh = .dotted && form = .header) then none
      else do
        let form := if fresh = .dotted then .dotted else form
        let inner ← changeAt fresh change path form inner
        return Entries.replace entries key (.table form inner)
    | some (.list true items) =>
      match items.getLast? with
      | some (.table form inner) => do
        let inner ← changeAt fresh change path form inner
        return Entries.replace entries key (.list true (items.dropLast ++ [.table form inner]))
      | _ => none
    | some _ => none

/-- Adds a key to a table.  Keys are defined once, and a dotted key adds only to
tables that dotted keys have made. -/
def addKey (path : List String) (key : String) (v : Value) (form : Form) (entries : Entries) :
    Option Entries :=
  changeAt .dotted (fun form es =>
    if (form = .dotted) = path.isEmpty || (es.lookup key).isSome then none
    else some (es ++ [(key, v)])) path form entries

/-- Opens the table `key` by a header.  Only a table that came about as an
enclosing one may be there already. -/
def openTable (key : String) (entries : Entries) : Option Entries :=
  match entries.lookup key with
  | none => some (entries ++ [(key, .table .header [])])
  | some (.table .implicit inner) => some (Entries.replace entries key (.table .header inner))
  | some _ => none

def openItem (key : String) (entries : Entries) : Option Entries :=
  match entries.lookup key with
  | none => some (entries ++ [(key, .list true [.table .header []])])
  | some (.list true items) =>
    some (Entries.replace entries key (.list true (items ++ [.table .header []])))
  | some _ => none

end SqlReader.Toml
