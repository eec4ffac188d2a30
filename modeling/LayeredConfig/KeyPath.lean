/-!
# Paths of keys

The path of a key from the root of a document: the names of the sections around it, outermost
first, and then its own.
-/

namespace LayeredConfig

/-- The path of a key from the root of a document. The empty path is the root itself. -/
structure KeyPath where
  segments : List String := []
deriving DecidableEq, Repr

namespace KeyPath

/-- The path of a key of the section at this path. -/
def push (path : KeyPath) (key : String) : KeyPath :=
  { segments := path.segments ++ [key] }

/-- The last key and the path of the section around it, unless this is the root. -/
def pop? (path : KeyPath) : Option (String × KeyPath) :=
  path.segments.getLast?.map fun key => (key, { segments := path.segments.dropLast })

/-- The last key of the path; the root has the empty one. -/
def key (path : KeyPath) : String :=
  path.segments.getLastD ""

/-- The path as a diagnostic shows it. -/
def render (path : KeyPath) : String :=
  if path.segments.isEmpty then "(root)" else ":".intercalate path.segments

end KeyPath

end LayeredConfig
