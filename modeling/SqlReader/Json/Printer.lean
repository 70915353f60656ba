import SqlReader.Json.Basic

/-!
# Writing JSON

The compact form has no blanks.  The indented form gives each item a line of
its own, two spaces deeper than its container.
-/

namespace SqlReader.Json

def quoted (written : List Char) : List Char := '"' :: written ++ ['"']

mutual

def compact : Json → List Char
  | null => ['n', 'u', 'l', 'l']
  | bool true => ['t', 'r', 'u', 'e']
  | bool false => ['f', 'a', 'l', 's', 'e']
  | number written => written
  | string written => quoted written
  | array [] => ['[', ']']
  | array (item :: items) => '[' :: compact item ++ compactItems items ++ [']']
  | object [] => ['\x7b', '\x7d']
  | object ((key, value) :: members) =>
    '\x7b' :: quoted key ++ ':' :: compact value ++ compactMembers members ++ ['\x7d']

def compactItems : List Json → List Char
  | [] => []
  | item :: items => ',' :: compact item ++ compactItems items

def compactMembers : List (List Char × Json) → List Char
  | [] => []
  | (key, value) :: members =>
    ',' :: quoted key ++ ':' :: compact value ++ compactMembers members

end

def lineBreak (depth : Nat) : List Char := '\n' :: List.replicate (2 * depth) ' '

mutual

/-- The indented form of a document inside `depth` containers. -/
def indented (depth : Nat) : Json → List Char
  | null => ['n', 'u', 'l', 'l']
  | bool true => ['t', 'r', 'u', 'e']
  | bool false => ['f', 'a', 'l', 's', 'e']
  | number written => written
  | string written => quoted written
  | array [] => ['[', ']']
  | array (item :: items) =>
    '[' :: lineBreak (depth + 1) ++ indented (depth + 1) item ++
      indentedItems (depth + 1) items ++ lineBreak depth ++ [']']
  | object [] => ['\x7b', '\x7d']
  | object ((key, value) :: members) =>
    '\x7b' :: lineBreak (depth + 1) ++ quoted key ++ ':' :: ' ' :: indented (depth + 1) value ++
      indentedMembers (depth + 1) members ++ lineBreak depth ++ ['\x7d']

def indentedItems (depth : Nat) : List Json → List Char
  | [] => []
  | item :: items => ',' :: lineBreak depth ++ indented depth item ++ indentedItems depth items

def indentedMembers (depth : Nat) : List (List Char × Json) → List Char
  | [] => []
  | (key, value) :: members =>
    ',' :: lineBreak depth ++ quoted key ++ ':' :: ' ' :: indented depth value ++
      indentedMembers depth members

end

end SqlReader.Json
