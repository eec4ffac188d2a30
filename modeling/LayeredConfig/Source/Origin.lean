import LayeredConfig.Source.Location

/-!
# Where a key comes from

An origin is one definition of a key: the position at which it is written, the positions of the
include commands that led to that file, and the sections around it. A provenance is the history of
all definitions of one key, oldest first.
-/

namespace LayeredConfig

/-- The names of the sections around a place, outermost first. -/
structure SectionPath where
  segments : List String := []
deriving DecidableEq, Repr

namespace SectionPath

/-- The path of a section inside this one. -/
def push (path : SectionPath) (name : String) : SectionPath :=
  { segments := path.segments ++ [name] }

/-- The innermost name and the path around it, unless this is the document itself. -/
def pop? (path : SectionPath) : Option (String × SectionPath) :=
  path.segments.getLast?.map fun name => (name, { segments := path.segments.dropLast })

/-- The path as a diagnostic shows it. -/
def render (path : SectionPath) : String :=
  if path.segments.isEmpty then ">" else "> " ++ " > ".intercalate path.segments

end SectionPath

/-- Where something is defined. The trail starts in the outermost file and goes one include deeper
with every entry; its last entry is the definition itself. -/
structure Origin where
  trail : List SourcePos := []
  sections : SectionPath := {}
deriving DecidableEq, Repr

namespace Origin

/-- The origin that stands for a whole file. -/
def ofFile (file : String) : Origin :=
  { trail := [.ofFile file] }

/-- Whether two origins are the same, however the paths in them are written. -/
def same (a b : Origin) : Bool :=
  List.isEqv a.trail b.trail SourcePos.same && a.sections == b.sections

/-- The innermost position, where the thing itself is written. -/
def position? (origin : Origin) : Option SourcePos :=
  origin.trail.getLast?

/-- A depth in a back trace, set to the right of two columns. -/
def renderDepth (depth : Nat) : String :=
  if depth < 10 then s!" {depth}" else toString depth

/-- The back trace, innermost position first. -/
def render (origin : Origin) : String :=
  let steps := origin.trail.zipIdx.map fun (pos, depth) =>
    s!"#{renderDepth depth}: {pos.render}\n"
  s!"* Section trace: {origin.sections.render}\n* Include back trace:\n" ++
    String.join steps.reverse ++ "#End"

end Origin

/-- The definitions of a key, oldest first. A key that a file includes and then overwrites has
two: the included one and its own. -/
structure Provenance where
  origins : List Origin := []
deriving DecidableEq, Repr

namespace Provenance

/-- The history that consists of one definition. -/
def ofOrigin (origin : Origin) : Provenance :=
  { origins := [origin] }

/-- Adds a definition, which becomes the latest one. -/
def push (history : Provenance) (origin : Origin) : Provenance :=
  { origins := history.origins ++ [origin] }

/-- One history followed by another. -/
def append (older newer : Provenance) : Provenance :=
  { origins := older.origins ++ newer.origins }

instance : Append Provenance := ⟨append⟩

/-- Whether two histories are the same, however the paths in them are written. -/
def same (a b : Provenance) : Bool :=
  List.isEqv a.origins b.origins Origin.same

/-- The most recent definition. -/
def latest? (history : Provenance) : Option Origin :=
  history.origins.getLast?

/-- Whether there is no definition at all. -/
def isEmpty (history : Provenance) : Bool :=
  history.origins.isEmpty

/-- All definitions, latest first. -/
def render (history : Provenance) : String :=
  if history.isEmpty then "* (no source information)"
  else "\n* Previously defined at:\n".intercalate (history.origins.reverse.map Origin.render)

end Provenance

end LayeredConfig
