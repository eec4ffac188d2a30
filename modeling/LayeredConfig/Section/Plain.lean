import LayeredConfig.Json
import LayeredConfig.Section.Basic

/-!
# Plain mappings

What is handed out of a finished document: texts and nested mappings, without flags and histories.
A template that was never evaluated appears in its source form.
-/

namespace LayeredConfig

/-- A text, or a mapping of keys to such values. -/
inductive PlainValue
  | text (value : String)
  | mapping (entries : OrderedMap PlainValue)

/-- The plain form of a section. -/
abbrev PlainMap := OrderedMap PlainValue

namespace Section

mutual

/-- The entries of a section as plain values. -/
def toPlain : Section → PlainMap
  | ⟨_, ⟨entries⟩⟩ => ⟨toPlainEntries entries⟩

/-- Some entries as plain values. -/
def toPlainEntries : List (String × Entry) → List (String × PlainValue)
  | [] => []
  | (key, ⟨value, _⟩) :: entries => (key, toPlainValue value) :: toPlainEntries entries

/-- A value without the attributes inside it. -/
def toPlainValue : Value → PlainValue
  | .scalar s => .text s.render
  | .subsection s => .mapping (toPlain s)

end

end Section

namespace PlainValue

mutual

/-- A plain value as JSON: mappings are objects, in the order of their keys. -/
def toJson : PlainValue → Json
  | .text s => .string s
  | .mapping ⟨entries⟩ => .object (toJsonMembers entries)

/-- The entries of a mapping as members of an object. -/
def toJsonMembers : List (String × PlainValue) → List (String × Json)
  | [] => []
  | (key, value) :: entries => (key, value.toJson) :: toJsonMembers entries

end

end PlainValue

/-- A plain mapping as a JSON object. -/
def PlainMap.toJson (map : PlainMap) : Json :=
  .object (PlainValue.toJsonMembers map.toList)

end LayeredConfig
