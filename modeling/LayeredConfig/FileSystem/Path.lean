import LayeredConfig.Text.Chars

/-!
# Paths as texts

A path is kept as the text that was written. A relative path is joined to the directory of the
file that mentions it, and the result is shown as it came about, with all its dots and slashes.
-/

namespace LayeredConfig.Path

open Text

/-- Whether a path starts at the root of the file system. -/
def isAbsolute (path : String) : Bool :=
  path.toList.head? == some '/'

/-- The path `path` as seen from the directory `base`. An absolute path stands for itself. -/
def join (base path : String) : String :=
  if isAbsolute path || base.isEmpty then path
  else if base.toList.getLast? == some '/' then base ++ path
  else base ++ "/" ++ path

/-- Whether a piece between two slashes names nothing. -/
def isBlankPiece (piece : List Char) : Bool :=
  piece == [] || piece == ['.']

/-- What a path starts with before its first name: the root, the directory itself, or nothing. -/
def start : List Char → List Char
  | '/' :: _ => ['/']
  | ['.'] => ['.']
  | '.' :: '/' :: _ => ['.']
  | _ => []

/-- The pieces of a path without the ones at the end that name nothing. -/
def dropBlankEnd (pieces : List (List Char)) : List (List Char) :=
  (pieces.reverse.dropWhile isBlankPiece).reverse

/-- The path of the directory that holds `path`: what stands before its last name. A path that has
no name in it has the empty path. -/
def parent (path : String) : String :=
  let cs := path.toList
  let lead := start cs
  match dropBlankEnd (splitOn '/' (cs.drop lead.length)) with
  | [] => ""
  | pieces =>
    String.ofList (lead ++ ['/'].intercalate (dropBlankEnd pieces.dropLast))

/-- What a path starts with, and the names in it. -/
def parts (path : String) : List Char × List (List Char) :=
  let cs := path.toList
  let lead := start cs
  (lead, (splitOn '/' (cs.drop lead.length)).filter fun piece => !isBlankPiece piece)

/-- Whether two paths are the same but for pieces that name nothing. -/
def same (a b : String) : Bool :=
  parts a == parts b

end LayeredConfig.Path
