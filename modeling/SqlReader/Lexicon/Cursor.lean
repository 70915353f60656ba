import SqlReader.Lexicon.Lexeme

/-!
# Cursors

A cursor stands in a text without trailing blanks, either at the start of a
token or at the end: the white space after a token is skipped with it.
-/

namespace SqlReader

open Text

structure Cursor where
  /-- The whole text. -/
  input : List Char
  /-- Position in bytes. -/
  offset : Nat
  /-- What follows the position. -/
  rest : List Char
  deriving DecidableEq

namespace Cursor

/-- Moves over white space, each character of which is one byte. -/
def skipSpace (c : Cursor) : Cursor :=
  { c with
    offset := c.offset + (c.rest.takeWhile isSpace).length
    rest := c.rest.dropWhile isSpace }

def ofText (text : List Char) : Cursor :=
  skipSpace ⟨trimEnd text, 0, trimEnd text⟩

def atEnd (c : Cursor) : Bool := c.rest.isEmpty

def lexeme (c : Cursor) : Lexeme := scan c.rest

def peek (c : Cursor) : Token := c.lexeme.token

def fragment (c : Cursor) : List Char := c.lexeme.text

def pop (c : Cursor) : Cursor :=
  skipSpace { c with offset := c.offset + c.lexeme.size, rest := c.lexeme.rest }

def popRest (c : Cursor) : Cursor :=
  { c with offset := byteLength c.input, rest := [] }

theorem pop_rest_length_lt {c : Cursor} (h : c.atEnd = false) :
    c.pop.rest.length < c.rest.length := by
  have hne : c.rest ≠ [] := by
    intro h'
    simp [atEnd, h'] at h
  have hdrop : (c.lexeme.rest.dropWhile isSpace).length ≤ c.lexeme.rest.length :=
    (List.dropWhile_suffix _).length_le
  exact Nat.lt_of_le_of_lt hdrop (scan_rest_length_lt hne)

def tokens (c : Cursor) : List (Nat × Token) :=
  if _h : c.atEnd then [] else (c.offset, c.peek) :: c.pop.tokens
termination_by c.rest.length
decreasing_by exact pop_rest_length_lt (by simpa using _h)

end Cursor

/-- All tokens of a text, each with the position of its first byte. -/
def tokenize (text : String) : List (Nat × Token) := (Cursor.ofText text.toList).tokens

end SqlReader
