import LayeredConfig.Text.Chars

/-!
# References to keys

A value refers to another key by the path of that key. A path that starts with a colon is looked
up from the root of the document, any other one from the section that holds the value.
-/

namespace LayeredConfig

/-- A reference whose path has an empty key in it. -/
structure EmptySegment where
  /-- The path as written. -/
  path : String
deriving DecidableEq, Repr

/-- The diagnostic for a reference with an empty key. -/
def EmptySegment.message (e : EmptySegment) : String :=
  s!"Invalid reference (!{e.path}) : empty key in path"

/-- The path of another key, as a value refers to it. -/
structure Reference where
  /-- Looked up from the root instead of the enclosing section. -/
  absolute : Bool
  /-- The keys of the path, outermost first. -/
  segments : List String
deriving DecidableEq, Repr

namespace Reference

/-- Reads a path. At most one leading colon is dropped, and then no key may be empty. -/
def parse (path : String) : Except EmptySegment Reference :=
  let parts := Text.splitOn ':' path.toList
  let absolute := parts.head? == some []
  let segments := if absolute then parts.tail else parts
  if segments.isEmpty || segments.any List.isEmpty then .error { path }
  else .ok { absolute, segments := segments.map String.ofList }

/-- The path as it is written. -/
def render (ref : Reference) : String :=
  (if ref.absolute then ":" else "") ++ ":".intercalate ref.segments

/-- The full path that a reference in the value of the key at `key` leads to. -/
def resolve (ref : Reference) (key : List String) : List String :=
  if ref.absolute then ref.segments else key.dropLast ++ ref.segments

end Reference

end LayeredConfig
