import SqlReader.Lexicon.Token
import SqlReader.Text.Basic

/-!
# The reserved vocabulary

An entry is a phrase of one or more words.  It matches the start of a text
without regard to the case of ASCII letters; the words of a phrase may be
separated by any amount of white space, and a phrase that ends in a word
character must end where a word ends.  The longest match decides the token.
-/

namespace SqlReader

open Text

def sameLetter (a b : Char) : Bool := a.toUpper == b.toUpper

def splitWord : List Char → List Char → Option (List Char × List Char)
  | [], cs => some ([], cs)
  | _ :: _, [] => none
  | w :: ws, c :: cs =>
    if sameLetter w c then (splitWord ws cs).map fun p => (c :: p.1, p.2) else none

def splitPhrase : List (List Char) → List Char → Option (List Char × List Char)
  | [], cs => some ([], cs)
  | [w], cs => splitWord w cs
  | w :: ws, cs =>
    match splitWord w cs with
    | none => none
    | some (taken, rest) =>
      let gap := rest.takeWhile isSpace
      if gap.isEmpty then none
      else (splitPhrase ws (rest.dropWhile isSpace)).map fun p => (taken ++ gap ++ p.1, p.2)

structure Entry where
  words : List String
  keyword : Keyword
  deriving DecidableEq

/-- A reserved phrase found at the start of a text: the characters that spell it
and the text after them. -/
structure Match where
  keyword : Keyword
  text : List Char
  rest : List Char

/-- The words of a vocabulary are ASCII, so a match has as many bytes as characters. -/
def Match.length (m : Match) : Nat := m.text.length

namespace Entry

def text (e : Entry) : String := " ".intercalate e.words

/-- Whether the phrase ends in a word character, so that it needs a word boundary. -/
def endsInWord (e : Entry) : Bool := e.text.toList.getLast?.any isWordChar

def match? (e : Entry) (cs : List Char) : Option Match :=
  match splitPhrase (e.words.map String.toList) cs with
  | none => none
  | some (taken, rest) =>
    if e.endsInWord && rest.head?.any isWordChar then none
    else some ⟨e.keyword, taken, rest⟩

end Entry

/-- The longer of two matches; of two equal ones the second. -/
def longer (best : Option Match) (m : Match) : Option Match :=
  match best with
  | none => some m
  | some b => if b.length ≤ m.length then some m else some b

def longestIn (entries : List Entry) (cs : List Char) : Option Match :=
  (entries.filterMap (·.match? cs)).foldl longer none

def vocabulary : List Entry := [
  ⟨["("], .leftParen⟩,
  ⟨[")"], .rightParen⟩,
  ⟨[">="], .greaterEqual⟩,
  ⟨["<="], .lessEqual⟩,
  ⟨["!="], .notEqual⟩,
  ⟨["<>"], .notEqual⟩,
  ⟨[","], .comma⟩,
  ⟨["="], .equal⟩,
  ⟨[">"], .greater⟩,
  ⟨["<"], .less⟩,
  ⟨["SELECT"], .select⟩,
  ⟨["INSERT", "INTO"], .insertInto⟩,
  ⟨["INSERT"], .insert⟩,
  ⟨["VALUES"], .values⟩,
  ⟨["UPDATE"], .update⟩,
  ⟨["SET"], .set⟩,
  ⟨["DELETE", "FROM"], .deleteFrom⟩,
  ⟨["DELETE"], .delete⟩,
  ⟨["CREATE", "TABLE"], .createTable⟩,
  ⟨["CREATE", "VIEW"], .createView⟩,
  ⟨["CREATE", "INDEX"], .createIndex⟩,
  ⟨["CREATE", "USER"], .createUser⟩,
  ⟨["CHECK"], .check⟩,
  ⟨["WHERE"], .whereClause⟩,
  ⟨["FROM"], .fromClause⟩,
  ⟨["AND"], .and⟩,
  ⟨["OR"], .or⟩,
  ⟨["IN"], .inList⟩,
  ⟨["NOT", "IN"], .notInList⟩,
  ⟨["LIKE"], .like⟩,
  ⟨["NOT", "LIKE"], .notLike⟩,
  ⟨["GROUP", "BY"], .groupBy⟩,
  ⟨["ORDER", "BY"], .orderBy⟩,
  ⟨["HAVING"], .having⟩,
  ⟨["BETWEEN"], .between⟩,
  ⟨["NOT", "BETWEEN"], .notBetween⟩,
  ⟨["IDENTIFIED", "BY"], .identifiedBy⟩,
  ⟨["ON", "TABLE"], .onTable⟩,
  ⟨["ON"], .on⟩,
  ⟨["TO"], .toClause⟩,
  ⟨["GRANT"], .grant⟩,
  ⟨["REVOKE"], .revoke⟩,
  ⟨["NOT", "NULL"], .notNull⟩,
  ⟨["UNIQUE"], .unique⟩,
  ⟨["PRIMARY", "KEY"], .primaryKey⟩,
  ⟨["FOREIGN", "KEY"], .foreignKey⟩,
  ⟨["REFERENCES"], .references⟩,
  ⟨["DEFAULT"], .default⟩,
  ⟨["AS"], .as⟩,
  ⟨["ASC"], .asc⟩,
  ⟨["DESC"], .desc⟩,
  ⟨["ALL", "PRIVILEGES"], .allPrivileges⟩]

def longestMatch (cs : List Char) : Option Match := longestIn vocabulary cs

end SqlReader
