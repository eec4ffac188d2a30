import LayeredConfig.Json.Reader
import LayeredConfig.Source.Origin

/-!
# Histories as JSON

A definition history can be stored as JSON and read back. Every record is an object with its
fields in a fixed order; a location or a line that is absent is left out. Reading also takes a
record as an array of its fields, passes over members that it does not know, and takes `null` for
an absent optional field.
-/

namespace LayeredConfig

namespace Json

/-- The value as a natural number of at most 64 bits. -/
def toNat? : Json → Option Nat
  | .number spelling =>
    let digits := spelling.toList
    let n := Text.decimalNumber digits
    if digits.all Text.isAsciiDigit && n < 0x10000000000000000 then some n else none
  | _ => none

/-- The value as a text. -/
def toText? : Json → Option String
  | .string text => some text
  | _ => none

/-- The value as a list, with every item decoded. -/
def toList? (decode : Json → Option α) : Json → Option (List α)
  | .array items => items.mapM decode
  | _ => none

/-- An optional value: `null` stands for an absent one. -/
def toOption? (decode : Json → Option α) : Json → Option (Option α)
  | .null => some none
  | value => (decode value).map some

/-- The value of the member called `name`: `none` inside when there is no such member, and no
answer when there are several. -/
def member? (members : List (String × Json)) (name : String) : Option (Option Json) :=
  match members.filter (·.1 == name) with
  | [] => some none
  | [(_, value)] => some (some value)
  | _ => none

/-- The fields of a record, in the order of `names`. A member may be missing when it is called
optional, and then reads as `null`; an array has exactly one item for each field. -/
def fields? (names : List (String × Bool)) : Json → Option (List Json)
  | .object members => names.mapM fun (name, isOptional) => do
    match ← member? members name with
    | some value => some value
    | none => if isOptional then some .null else none
  | .array items => if items.length = names.length then some items else none
  | _ => none

end Json

open Json

namespace Location

/-- The JSON form of a location. -/
def toJson (location : Location) : Json :=
  .object [("offset", .ofNat location.offset), ("row", .ofNat location.row),
    ("column", .ofNat location.column)]

/-- Reads the JSON form of a location. -/
def ofJson? (value : Json) : Option Location := do
  match ← fields? [("offset", false), ("row", false), ("column", false)] value with
  | [offset, row, column] =>
    some { offset := ← toNat? offset, row := ← toNat? row, column := ← toNat? column }
  | _ => none

end Location

namespace SourcePos

/-- The JSON form of a position. -/
def toJson (pos : SourcePos) : Json :=
  .object <| [("file", .string pos.file)] ++
    (pos.location.map fun l => ("location", l.toJson)).toList ++
    (pos.lineText.map fun t => ("line_text", .string t)).toList

/-- Reads the JSON form of a position. -/
def ofJson? (value : Json) : Option SourcePos := do
  match ← fields? [("file", false), ("location", true), ("line_text", true)] value with
  | [file, location, lineText] =>
    some { file := ← toText? file, location := ← toOption? Location.ofJson? location,
           lineText := ← toOption? toText? lineText }
  | _ => none

end SourcePos

namespace SectionPath

/-- The JSON form of a section path. -/
def toJson (path : SectionPath) : Json :=
  .object [("segments", .array (path.segments.map .string))]

/-- Reads the JSON form of a section path. -/
def ofJson? (value : Json) : Option SectionPath := do
  match ← fields? [("segments", false)] value with
  | [segments] => some { segments := ← toList? toText? segments }
  | _ => none

end SectionPath

namespace Origin

/-- The JSON form of an origin. -/
def toJson (origin : Origin) : Json :=
  .object [("trail", .array (origin.trail.map SourcePos.toJson)),
    ("section", origin.sections.toJson)]

/-- Reads the JSON form of an origin. -/
def ofJson? (value : Json) : Option Origin := do
  match ← fields? [("trail", false), ("section", false)] value with
  | [trail, sections] =>
    some { trail := ← toList? SourcePos.ofJson? trail, sections := ← SectionPath.ofJson? sections }
  | _ => none

end Origin

namespace Provenance

/-- The JSON form of a history. -/
def toJson (history : Provenance) : Json :=
  .object [("origins", .array (history.origins.map Origin.toJson))]

/-- Reads the JSON form of a history. -/
def ofJson? (value : Json) : Option Provenance := do
  match ← fields? [("origins", false)] value with
  | [origins] => some { origins := ← toList? Origin.ofJson? origins }
  | _ => none

/-- Reads a history from a JSON text. -/
def ofJsonText? (text : String) : Option Provenance :=
  (Json.read? text).bind ofJson?

end Provenance

end LayeredConfig
