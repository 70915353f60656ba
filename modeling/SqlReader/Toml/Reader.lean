import SqlReader.Json.Basic
import SqlReader.Toml.Basic

/-!
# Reading TOML

Readers take a part of a document off the start of a text and return the rest.
Where a reader nests or repeats, a bound on its steps is computed from the
length of the text.
-/

namespace SqlReader.Toml

open Json (hexValue?)

def isBlank (c : Char) : Bool := c == ' ' || c == '\t'

def skipBlank (cs : List Char) : List Char := cs.dropWhile isBlank

def isControl (c : Char) : Bool := (c.toNat < 0x20 && c != '\t') || c.toNat == 0x7F

def lineBreak? : List Char → Option (List Char)
  | '\n' :: cs => some cs
  | '\r' :: '\n' :: cs => some cs
  | _ => none

def skipComment (cs : List Char) : Option (List Char) :=
  match cs with
  | '#' :: cs =>
    let rest := cs.dropWhile (!isControl ·)
    if rest.isEmpty || (lineBreak? rest).isSome then some rest else none
  | cs => some cs

def lineEnd? (cs : List Char) : Option (List Char) :=
  match skipComment (skipBlank cs) with
  | some [] => some []
  | some rest => lineBreak? rest
  | none => none

def skipLines : Nat → List Char → Option (List Char)
  | 0, cs => some cs
  | fuel + 1, cs =>
    match skipComment (skipBlank cs) with
    | none => none
    | some rest =>
      match lineBreak? rest with
      | some rest => skipLines fuel rest
      | none => some rest

/-! ## Strings -/

def scalar? (n : Nat) : Option Char := if n.isValidChar then some (Char.ofNat n) else none

def hex? (ds : List Char) : Option Nat :=
  ds.foldlM (fun n d => (hexValue? d).map (16 * n + ·)) 0

/-- The character that an escape stands for, given what follows the backslash,
and the text after it. -/
def escape? : List Char → Option (Char × List Char)
  | 'u' :: cs => (hexEscape 4 cs)
  | 'U' :: cs => (hexEscape 8 cs)
  | 'x' :: cs => (hexEscape 2 cs)
  | 'b' :: cs => some ('\x08', cs)
  | 't' :: cs => some ('\t', cs)
  | 'n' :: cs => some ('\n', cs)
  | 'f' :: cs => some ('\x0c', cs)
  | 'r' :: cs => some ('\r', cs)
  | 'e' :: cs => some ('\x1b', cs)
  | '"' :: cs => some ('"', cs)
  | '\\' :: cs => some ('\\', cs)
  | _ => none
where
  hexEscape (n : Nat) (cs : List Char) : Option (Char × List Char) :=
    if n ≤ cs.length then do return (← scalar? (← hex? (cs.take n)), cs.drop n) else none

def readBasic : Nat → List Char → Option (List Char × List Char)
  | 0, _ | _, [] => none
  | _ + 1, '"' :: cs => some ([], cs)
  | fuel + 1, '\\' :: cs => do
    let (c, cs) ← escape? cs
    (readBasic fuel cs).map fun p => (c :: p.1, p.2)
  | fuel + 1, c :: cs =>
    if isControl c then none else (readBasic fuel cs).map fun p => (c :: p.1, p.2)

def readLiteral (cs : List Char) : Option (List Char × List Char) :=
  match cs.dropWhile fun c => c != '\'' && !isControl c with
  | '\'' :: rest => some (cs.takeWhile fun c => c != '\'' && !isControl c, rest)
  | _ => none

/-- Closing quotes of a string over several lines: three, after up to two more
that belong to the string. -/
def closing? (quote : Char) (cs : List Char) : Option (List Char × List Char) :=
  let run := cs.takeWhile (· == quote)
  if run.length < 3 then none
  else
    let inner := min (run.length - 3) 2
    some (List.replicate inner quote, cs.drop (inner + 3))

def skipBreaks : List Char → List Char
  | '\r' :: '\n' :: cs => skipBreaks cs
  | c :: cs => if isBlank c || c == '\n' then skipBreaks cs else c :: cs
  | [] => []

/-- A line break after a backslash and blanks joins two lines. -/
def joinLines? (cs : List Char) : Option (List Char) :=
  (lineBreak? (skipBlank cs)).map skipBreaks

def readLongBasic : Nat → List Char → Option (List Char × List Char)
  | 0, _ | _, [] => none
  | fuel + 1, c :: cs =>
    match closing? '"' (c :: cs) with
    | some found => some found
    | none =>
      if c == '\\' then
        match joinLines? cs with
        | some rest => readLongBasic fuel rest
        | none => do
          let (c, rest) ← escape? cs
          (readLongBasic fuel rest).map fun p => (c :: p.1, p.2)
      else if c == '\r' then
        match cs with
        | '\n' :: rest => (readLongBasic fuel rest).map fun p => ('\r' :: '\n' :: p.1, p.2)
        | _ => none
      else if isControl c && c != '\n' then none
      else (readLongBasic fuel cs).map fun p => (c :: p.1, p.2)

def readLongLiteral : Nat → List Char → Option (List Char × List Char)
  | 0, _ | _, [] => none
  | fuel + 1, c :: cs =>
    match closing? '\'' (c :: cs) with
    | some found => some found
    | none =>
      if c == '\r' then
        match cs with
        | '\n' :: rest => (readLongLiteral fuel rest).map fun p => ('\r' :: '\n' :: p.1, p.2)
        | _ => none
      else if isControl c && c != '\n' then none
      else (readLongLiteral fuel cs).map fun p => (c :: p.1, p.2)

/-- A line break right after the opening quotes does not belong to the string. -/
def dropFirstBreak (cs : List Char) : List Char := (lineBreak? cs).getD cs

/-! ## Keys -/

def isKeyChar (c : Char) : Bool := c.isAlphanum || c == '_' || c == '-'

def readKeyPart : List Char → Option (String × List Char)
  | '"' :: cs => (readBasic (cs.length + 1) cs).map fun p => (String.ofList p.1, p.2)
  | '\'' :: cs => (readLiteral cs).map fun p => (String.ofList p.1, p.2)
  | cs =>
    match cs.takeWhile isKeyChar with
    | [] => none
    | run => some (String.ofList run, cs.dropWhile isKeyChar)

def readKey : Nat → List Char → Option (List String × List Char)
  | 0, _ => none
  | fuel + 1, cs => do
    let (part, cs) ← readKeyPart (skipBlank cs)
    match skipBlank cs with
    | '.' :: cs => (readKey fuel cs).map fun p => (part :: p.1, p.2)
    | cs => some ([part], cs)

/-! ## Numbers and moments -/

/-- Digits, with single underscores between them allowed. -/
def digits? (isDigit : Char → Bool) (cs : List Char) : Option (List Char) :=
  let groups := cs.splitOn '_'
  if groups.all fun g => !g.isEmpty && g.all isDigit then some groups.flatten else none

def digitsValue (base : Nat) (ds : List Char) : Nat :=
  ds.foldl (fun n d => base * n + (hexValue? d).getD 0) 0

def isDigitBelow (base : Nat) (c : Char) : Bool := (hexValue? c).any (· < base)

def unsignedInteger? (base : Nat) (cs : List Char) : Option Nat :=
  (digits? (isDigitBelow base) cs).map (digitsValue base)

def splitSign : List Char → Bool × List Char
  | '-' :: cs => (true, cs)
  | '+' :: cs => (false, cs)
  | cs => (false, cs)

def wholeDigits? (cs : List Char) : Option (List Char) :=
  match digits? Char.isDigit cs with
  | some ('0' :: _ :: _) => none
  | found => found

def integer? : List Char → Option Int
  | '0' :: 'x' :: cs => (unsignedInteger? 16 cs).map Int.ofNat
  | '0' :: 'o' :: cs => (unsignedInteger? 8 cs).map Int.ofNat
  | '0' :: 'b' :: cs => (unsignedInteger? 2 cs).map Int.ofNat
  | cs =>
    let (negative, cs) := splitSign cs
    (wholeDigits? cs).map fun ds =>
      let n := Int.ofNat (digitsValue 10 ds)
      if negative then -n else n

/-- The least whole number that no float of 64 bits holds: halfway from the
largest one to the next power of two. -/
def floatLimit : Nat := (Nat.pow 2 54 - 1) * Nat.pow 2 970

/-- Whether a float of 64 bits holds the number with these digits, times ten to
the `exponent`.  The limit has 309 digits before the point. -/
def floatHolds (digits : List Char) (exponent : Int) : Bool :=
  let digits := digits.dropWhile (· == '0')
  let size := exponent + digits.length
  let n := digitsValue 10 digits
  if digits.isEmpty || size < 309 then true
  else if 309 < size then false
  else if 0 ≤ exponent then n * Nat.pow 10 exponent.toNat < floatLimit
  else n < floatLimit * Nat.pow 10 (-exponent).toNat

def fraction? : List Char → Option (List Char)
  | [] => some []
  | _ :: ds => digits? Char.isDigit ds

def exponent? : List Char → Option Int
  | [] => some 0
  | _ :: cs =>
    let (negative, cs) := splitSign cs
    (digits? Char.isDigit cs).map fun ds =>
      let n := Int.ofNat (digitsValue 10 ds)
      if negative then -n else n

def float? (cs : List Char) : Option Value :=
  let (_, cs) := splitSign cs
  if cs == ['i', 'n', 'f'] || cs == ['n', 'a', 'n'] then some (.float true)
  else
    let isMark (c : Char) : Bool := c == 'e' || c == 'E'
    let mantissa := cs.takeWhile (!isMark ·)
    let exponent := cs.dropWhile (!isMark ·)
    let fraction := mantissa.dropWhile (· != '.')
    if fraction.isEmpty && exponent.isEmpty then none
    else do
      let whole ← wholeDigits? (mantissa.takeWhile (· != '.'))
      let fraction ← fraction? fraction
      let exponent ← exponent? exponent
      return .float (floatHolds (whole ++ fraction) (exponent - fraction.length))

def twoDigits (low high : Nat) (a b : Char) : Bool :=
  a.isDigit && b.isDigit &&
    (let n := 10 * (a.toNat - 48) + (b.toNat - 48)
     low ≤ n && n ≤ high)

def daysIn (year month : Nat) : Nat :=
  if month == 2 then
    if year % 4 == 0 && (year % 100 != 0 || year % 400 == 0) then 29 else 28
  else if month == 4 || month == 6 || month == 9 || month == 11 then 30
  else 31

def isDate : List Char → Bool
  | [y1, y2, y3, y4, '-', m1, m2, '-', d1, d2] =>
    [y1, y2, y3, y4].all Char.isDigit && twoDigits 1 12 m1 m2 &&
      twoDigits 1 (daysIn (digitsValue 10 [y1, y2, y3, y4]) (digitsValue 10 [m1, m2])) d1 d2
  | _ => false

def isFraction : List Char → Bool
  | [] => true
  | '.' :: ds => !ds.isEmpty && ds.all Char.isDigit
  | _ => false

def isTime : List Char → Bool
  | [h1, h2, ':', m1, m2] => twoDigits 0 23 h1 h2 && twoDigits 0 59 m1 m2
  | h1 :: h2 :: ':' :: m1 :: m2 :: ':' :: s1 :: s2 :: fraction =>
    twoDigits 0 23 h1 h2 && twoDigits 0 59 m1 m2 && twoDigits 0 60 s1 s2 && isFraction fraction
  | _ => false

/-- Whether the text ends in an offset from universal time after a time of day. -/
def isZonedTime (cs : List Char) : Bool :=
  isTime cs ||
    (match cs.reverse with
      | 'Z' :: time | 'z' :: time => isTime time.reverse
      | m2 :: m1 :: ':' :: h2 :: h1 :: sign :: time =>
        (sign == '+' || sign == '-') && twoDigits 0 23 h1 h2 && twoDigits 0 59 m1 m2 &&
          isTime time.reverse
      | _ => false)

def isMoment (cs : List Char) : Bool :=
  isDate cs || isTime cs ||
    (match cs.drop 10 with
      | mark :: time => (mark == 'T' || mark == 't') && isDate (cs.take 10) && isZonedTime time
      | [] => false)

def bareValue? (cs : List Char) : Option Value :=
  if cs == ['t', 'r', 'u', 'e'] then some (.boolean true)
  else if cs == ['f', 'a', 'l', 's', 'e'] then some (.boolean false)
  else
    ((integer? cs).map .integer).or <|
      (float? cs).or (if isMoment cs then some .moment else none)

def isBareChar (c : Char) : Bool :=
  c.isAlphanum || c == '_' || c == '+' || c == '-' || c == '.' || c == ':'

/-- A bare value.  A date may be followed by a blank and a time. -/
def readBare (cs : List Char) : Option (Value × List Char) :=
  let word := cs.takeWhile isBareChar
  let rest := cs.dropWhile isBareChar
  let time := (rest.drop 1).takeWhile isBareChar
  if isDate word && rest.head? == some ' ' && isZonedTime time then
    some (.moment, (rest.drop 1).dropWhile isBareChar)
  else (bareValue? word).map (·, rest)

/-! ## Values -/

def maxNesting : Nat := 80

mutual

/-- Reads a value that may open `room` containers inside each other. -/
def readValue : Nat → Nat → List Char → Option (Value × List Char)
  | 0, _, _ => none
  | fuel + 1, room, cs =>
    match cs, room with
    | '"' :: '"' :: '"' :: cs, _ =>
      (readLongBasic (cs.length + 1) (dropFirstBreak cs)).map fun p =>
        (.string (String.ofList p.1), p.2)
    | '\'' :: '\'' :: '\'' :: cs, _ =>
      (readLongLiteral (cs.length + 1) (dropFirstBreak cs)).map fun p =>
        (.string (String.ofList p.1), p.2)
    | '"' :: cs, _ =>
      (readBasic (cs.length + 1) cs).map fun p => (.string (String.ofList p.1), p.2)
    | '\'' :: cs, _ => (readLiteral cs).map fun p => (.string (String.ofList p.1), p.2)
    | '[' :: cs, room + 1 => (readItems fuel room cs).map fun p => (.list false p.1, p.2)
    | '\x7b' :: cs, room + 1 =>
      (readEntries fuel room [] cs).map fun p => (.table .inline p.1, p.2)
    | cs, _ => readBare cs

def readItems : Nat → Nat → List Char → Option (List Value × List Char)
  | 0, _, _ => none
  | fuel + 1, room, cs => do
    match ← skipLines cs.length cs with
    | ']' :: cs => some ([], cs)
    | cs =>
      let (item, cs) ← readValue fuel room cs
      match ← skipLines cs.length cs with
      | ',' :: cs => (readItems fuel room cs).map fun p => (item :: p.1, p.2)
      | ']' :: cs => some ([item], cs)
      | _ => none

/-- Reads the entries of a table in braces up to its closing brace.  A key, the
equals sign and the value may stand on lines of their own. -/
def readEntries : Nat → Nat → Entries → List Char → Option (Entries × List Char)
  | 0, _, _, _ => none
  | fuel + 1, room, entries, cs => do
    match ← skipLines cs.length cs with
    | '\x7d' :: cs => some (entries, cs)
    | cs =>
      let (path, cs) ← readKey (cs.length + 1) cs
      let cs ← match ← skipLines cs.length cs with
        | '=' :: cs => skipLines cs.length cs
        | _ => none
      let (v, cs) ← readValue fuel room cs
      let entries ← addKey path.dropLast (path.getLastD "") v .header entries
      match ← skipLines cs.length cs with
      | ',' :: cs => readEntries fuel room entries cs
      | '\x7d' :: cs => some (entries, cs)
      | _ => none

end

/-! ## Documents -/

/-- A document read up to some line: its entries and the path of the table that
the lines add to. -/
structure Progress where
  entries : Entries := []
  current : List String := []

def openHeader (p : Progress) (path : List String)
    (opening : String → Entries → Option Entries) : Option Progress := do
  let entries ←
    changeAt .implicit (fun _ es => opening (path.getLastD "") es) path.dropLast .header p.entries
  return ⟨entries, path⟩

def define (p : Progress) (path : List String) (v : Value) : Option Progress := do
  let entries ←
    changeAt .implicit (addKey path.dropLast (path.getLastD "") v) p.current .header p.entries
  return { p with entries }

def readLine (p : Progress) (cs : List Char) : Option (Progress × List Char) :=
  match cs with
  | '[' :: '[' :: cs => do
    match ← readKey (cs.length + 1) cs with
    | (path, ']' :: ']' :: cs) => return (← openHeader p path openItem, cs)
    | _ => none
  | '[' :: cs => do
    match ← readKey (cs.length + 1) cs with
    | (path, ']' :: cs) => return (← openHeader p path openTable, cs)
    | _ => none
  | cs => do
    match ← readKey (cs.length + 1) cs with
    | (path, '=' :: cs) =>
      let cs := skipBlank cs
      let (v, cs) ← readValue (cs.length + 1) maxNesting cs
      return (← define p path v, cs)
    | _ => none

def readLines : Nat → Progress → List Char → Option Progress
  | 0, _, _ => none
  | fuel + 1, p, cs => do
    match ← skipLines cs.length cs with
    | [] => some p
    | cs =>
      let (p, cs) ← readLine p cs
      readLines fuel p (← lineEnd? cs)

def parse? (cs : List Char) : Option Value :=
  let cs := match cs with
    | '\ufeff' :: cs => cs
    | cs => cs
  (readLines (cs.length + 1) {} cs).map fun p => .table .header p.entries

end SqlReader.Toml
