import LayeredConfig.FileSystem.Path
import LayeredConfig.Text.Chars

/-!
# Places in a source text

A location names a byte of a text together with its row and column, both counted from zero. A
source position adds the file that holds the text and, for diagnostics, the whole line. A position
without a location stands for the whole file.
-/

namespace LayeredConfig

/-- A place in a text. Rows are counted by line feeds and columns by characters, from zero. -/
structure Location where
  /-- The number of bytes before the place. -/
  offset : Nat
  row : Nat
  column : Nat
deriving DecidableEq, Repr

namespace Text

/-- The characters after the last line feed. -/
def lastLine (cs : List Char) : List Char :=
  (cs.reverse.takeWhile (· != '\n')).reverse

/-- The row and column of a byte of a text. There are none past the end of the text, nor inside
the bytes of one character. -/
def location? (source : String) (offset : Nat) : Option Location :=
  (splitAtByte? source.toList offset).map fun (before, _) =>
    { offset, row := before.count '\n', column := (lastLine before).length }

/-- The line that holds a byte of a text, without its line break and the carriage returns before
that. A line feed belongs to the line that it ends, and a byte past the end to the last line. -/
def lineAt? (source : String) (offset : Nat) : Option String :=
  let cs := source.toList
  (splitAtByte? cs (min offset (byteLength cs))).map fun (before, after) =>
    String.ofList
      (dropTrailing (· == '\r') (lastLine before ++ after.takeWhile (· != '\n')))

end Text

/-- A place in a named file, or the file as a whole. -/
structure SourcePos where
  /-- The path of the file, as it was opened. -/
  file : String
  location : Option Location := none
  /-- The text of the line that holds the location. -/
  lineText : Option String := none
deriving DecidableEq, Repr

namespace SourcePos

/-- The position that stands for a whole file. -/
def ofFile (file : String) : SourcePos :=
  { file }

/-- Whether two positions are the same, however the paths of their files are written. -/
def same (a b : SourcePos) : Bool :=
  Path.same a.file b.file && a.location == b.location && a.lineText == b.lineText

/-- The position of byte `offset` of `source`, the text of `file`. An offset past the end counts
as the end, and one inside a character has no location. -/
def inSource (file source : String) (offset : Nat) : SourcePos :=
  match Text.location? source (min offset (Text.byteLength source.toList)) with
  | some location => { file, location, lineText := Text.lineAt? source offset }
  | none => { file }

/-- The line number, counted from one. -/
def line? (pos : SourcePos) : Option Nat :=
  pos.location.map (·.row + 1)

/-- The column number, counted from one. -/
def column? (pos : SourcePos) : Option Nat :=
  pos.location.map (·.column + 1)

/-- The position as a diagnostic shows it: file, line and column, and below them the line. -/
def render (pos : SourcePos) : String :=
  match pos.location with
  | none => pos.file
  | some location =>
    let place := s!"{pos.file} (line {location.row + 1}, column {location.column + 1})"
    match pos.lineText with
    | none => place
    | some text => s!"{place}\n\t{text}"

end SourcePos

end LayeredConfig
