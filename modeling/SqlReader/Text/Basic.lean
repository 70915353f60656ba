/-!
# Characters and text

The scanners of this library work on lists of characters and count positions in
UTF-8 bytes.  This module fixes the byte measure, the two white-space classes,
trimming, and the splitting of text into lines.
-/

namespace SqlReader.Text

def byteLength : List Char → Nat
  | [] => 0
  | c :: cs => c.utf8Size + byteLength cs

@[simp] theorem byteLength_nil : byteLength [] = 0 := rfl

@[simp] theorem byteLength_cons (c : Char) (cs : List Char) :
    byteLength (c :: cs) = c.utf8Size + byteLength cs := rfl

@[simp] theorem byteLength_append (a b : List Char) :
    byteLength (a ++ b) = byteLength a + byteLength b := by
  induction a with
  | nil => simp
  | cons c a ih => simp [ih, Nat.add_assoc]

/-- The first `n` bytes of a text, if a character ends there. -/
def takeBytes? : Nat → List Char → Option (List Char)
  | 0, _ => some []
  | _ + 1, [] => none
  | n + 1, c :: cs =>
    if c.utf8Size ≤ n + 1 then (takeBytes? (n + 1 - c.utf8Size) cs).map (c :: ·) else none

/-- White space that separates tokens: space, tab, line feed, form feed and
carriage return. -/
def isSpace (c : Char) : Bool :=
  c == ' ' || c == '\t' || c == '\n' || c == '\x0c' || c == '\r'

/-- The Unicode property `White_Space`, used when the ends of a text are trimmed. -/
def isBlank (c : Char) : Bool :=
  let n := c.toNat
  (9 ≤ n && n ≤ 13) || n == 0x20 || n == 0x85 || n == 0xA0 || n == 0x1680 ||
    (0x2000 ≤ n && n ≤ 0x200A) || n == 0x2028 || n == 0x2029 || n == 0x202F ||
    n == 0x205F || n == 0x3000

theorem isBlank_of_isSpace {c : Char} (h : isSpace c = true) : isBlank c = true := by
  simp only [isSpace, Bool.or_eq_true, beq_iff_eq] at h
  rcases h with (((rfl | rfl) | rfl) | rfl) | rfl <;> rfl

def trimStart (cs : List Char) : List Char := cs.dropWhile isBlank

def trimEnd (cs : List Char) : List Char := (cs.reverse.dropWhile isBlank).reverse

def trim (cs : List Char) : List Char := trimEnd (trimStart cs)

def dropFinal (mark : Char) (cs : List Char) : List Char :=
  if cs.getLast? = some mark then cs.dropLast else cs

/-- Capital form of the ASCII letters of a text. -/
def upper (cs : List Char) : List Char := cs.map Char.toUpper

def lower (cs : List Char) : List Char := cs.map Char.toLower

def upperString (s : String) : String := String.ofList (upper s.toList)

def lowerString (s : String) : String := String.ofList (lower s.toList)

/-- The lines of a text.  A line ends at a line feed, a carriage return before
that line feed belongs to the line end, and nothing follows the last line end. -/
def lines : List Char → List (List Char)
  | [] => []
  | '\n' :: cs => [] :: lines cs
  | '\r' :: '\n' :: cs => [] :: lines cs
  | c :: cs =>
    match lines cs with
    | [] => [[c]]
    | line :: rest => (c :: line) :: rest

def padLeft (width : Nat) (s : String) : String :=
  String.ofList (List.replicate (width - s.length) ' ') ++ s

def padRight (width : Nat) (s : String) : String :=
  s ++ String.ofList (List.replicate (width - s.length) ' ')

def decimal? (cs : List Char) : Option Nat :=
  if !cs.isEmpty && cs.all Char.isDigit then
    some (cs.foldl (fun n c => 10 * n + (c.toNat - '0'.toNat)) 0)
  else none

def unsigned? (s : String) : Option Nat :=
  decimal? (match s.toList with
    | '+' :: cs => cs
    | cs => cs)

def word32? (n : Nat) : Option UInt32 := if n < UInt32.size then some n.toUInt32 else none

def word64? (n : Nat) : Option UInt64 := if n < UInt64.size then some n.toUInt64 else none

@[simp] theorem word32?_toNat (n : UInt32) : word32? n.toNat = some n := by
  simp [word32?, n.toNat_lt_size]

@[simp] theorem word64?_toNat (n : UInt64) : word64? n.toNat = some n := by
  simp [word64?, n.toNat_lt_size]

end SqlReader.Text
