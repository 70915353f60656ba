import SqlReader.Lexicon.Keyword

/-!
# Tokens

A token is a reserved word, a quoted literal, a word, a quotation that never
closes, or the end of the text.  Words are names and numbers, and also any
single character that belongs to no other class.
-/

namespace SqlReader

/-- The word class: letters, digits, underscore and star, all of them ASCII. -/
def isWordChar (c : Char) : Bool := c.isAlphanum || c == '_' || c == '*'

/-- A name: a letter or underscore, then letters, digits and underscores. -/
def isIdentifier (s : String) : Bool :=
  match s.toList with
  | [] => false
  | c :: cs => (c.isAlpha || c == '_') && cs.all fun d => d.isAlphanum || d == '_'

inductive Token
  | keyword (k : Keyword)
  | literal (text : String)
  | word (text : String)
  | unterminated (text : String)
  | endOfText
  deriving DecidableEq

namespace Token

def keyword? : Token → Option Keyword
  | keyword k => some k
  | _ => none

def is (t : Token) (k : Keyword) : Bool := t.keyword? == some k

/-- The name that the token spells: of a table, a column or a user. -/
def identifier? : Token → Option String
  | word s => if isIdentifier s then some s else none
  | _ => none

/-- The value that the token spells: a quoted text, or a bare word such as a number. -/
def value? : Token → Option String
  | literal s => some s
  | word s => if s.toList.all isWordChar then some s else none
  | _ => none

def display : Token → String
  | keyword k => k.spelling
  | literal s => "'" ++ s ++ "'"
  | word s => s
  | unterminated s => "'" ++ s
  | endOfText => "end of input"

end Token

end SqlReader
