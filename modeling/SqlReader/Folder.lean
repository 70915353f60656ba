import SqlReader.Error

/-!
# Folders

The files that a command works on, with their contents in bytes.  A path is a
list of names; a path that leads to no name is the folder itself, and a path
that is the beginning of a file's path is a folder inside it.
-/

namespace SqlReader

abbrev Path := List (List Char)

/-- The names along a path.  Empty names and steps to the same or the enclosing
folder lead to no name. -/
def Path.ofString (s : String) : Path :=
  (s.toList.splitOn '/').filter fun name => name ≠ [] ∧ name ≠ ['.'] ∧ name ≠ ['.', '.']

structure Folder where
  files : List (Path × ByteArray) := []

namespace Folder

def file? (f : Folder) (path : Path) : Option ByteArray :=
  (f.files.find? (·.1 == path)).map (·.2)

def isFolder (f : Folder) (path : Path) : Bool :=
  path.isEmpty || f.files.any fun p => path.isPrefixOf p.1 && path != p.1

def contains (f : Folder) (path : String) : Bool :=
  path ≠ "" && ((f.file? (.ofString path)).isSome || f.isFolder (.ofString path))

def read (f : Folder) (path : String) : Except FileFault ByteArray :=
  if path = "" then .error .missing
  else
    match f.file? (.ofString path) with
    | some bytes => .ok bytes
    | none => .error (if f.isFolder (.ofString path) then .isDirectory else .missing)

def readText (f : Folder) (path : String) : Except FileFault String := do
  match String.fromUTF8? (← f.read path) with
  | some text => .ok text
  | none => .error .notText

def put (f : Folder) (path : Path) (bytes : ByteArray) : Folder where
  files := (path, bytes) :: f.files.filter (·.1 != path)

/-- Writes a text to a file, whose folder has to be there. -/
def writeText (f : Folder) (path : String) (text : String) : Except FileFault Folder :=
  let names := Path.ofString path
  if path = "" then .error .missing
  else if f.isFolder names then .error .isDirectory
  else if f.isFolder names.dropLast then .ok (f.put names text.toUTF8)
  else .error .missing

end Folder

end SqlReader
