import LayeredConfig.Section.Plain

/-!
# Values of rules

What rule expressions compute with: nothing, truth values, integers, strings, and mappings.
Mappings are compared without regard to the order of their keys.
-/

namespace LayeredConfig

namespace PlainValue

mutual

/-- Whether two plain values hold the same texts under the same keys, in whatever order. -/
def same : PlainValue → PlainValue → Bool
  | .text s, .text t => s == t
  | .mapping ⟨entries⟩, .mapping map => entries.length == map.size && sameEntries entries map
  | .text _, .mapping _ => false
  | .mapping _, .text _ => false

/-- Whether a mapping holds the same value as each of some entries. -/
def sameEntries : List (String × PlainValue) → PlainMap → Bool
  | [], _ => true
  | (key, value) :: entries, map =>
    (match map.get? key with
      | some other => value.same other
      | none => false) && sameEntries entries map

end

mutual

/-- A plain value as it is shown: texts in quotes, mappings in braces. -/
def render : PlainValue → String
  | .text s => s!"'{s}'"
  | .mapping ⟨entries⟩ => "\x7b" ++ ", ".intercalate (renderEntries entries) ++ "\x7d"

/-- The entries of a mapping as they are shown. -/
def renderEntries : List (String × PlainValue) → List String
  | [] => []
  | (key, value) :: entries => (s!"'{key}': " ++ value.render) :: renderEntries entries

end

end PlainValue

/-- A value that a rule computes with. -/
inductive RuleValue
  | nothing
  | bool (value : Bool)
  | int (value : Int)
  | str (value : String)
  | map (value : PlainMap)

namespace RuleValue

/-- The value that stands for a plain one. -/
def ofPlain : PlainValue → RuleValue
  | .text s => .str s
  | .mapping m => .map m

/-- Whether a value counts as true: nothing, zero, and whatever is empty do not. -/
def isTruthy : RuleValue → Bool
  | .nothing => false
  | .bool b => b
  | .int i => i != 0
  | .str s => !s.isEmpty
  | .map m => !m.isEmpty

/-- The name of the type of a value. -/
def typeName : RuleValue → String
  | .nothing => "NoneType"
  | .bool _ => "bool"
  | .int _ => "int"
  | .str _ => "str"
  | .map _ => "dict"

/-- Whether two values are equal. Values of different types never are. -/
def equals : RuleValue → RuleValue → Bool
  | .nothing, .nothing => true
  | .bool a, .bool b => a == b
  | .int a, .int b => a == b
  | .str a, .str b => a == b
  | .map a, .map b => (PlainValue.mapping a).same (.mapping b)
  | _, _ => false

/-- A value as it is shown. -/
def render : RuleValue → String
  | .nothing => "None"
  | .bool true => "True"
  | .bool false => "False"
  | .int i => toString i
  | .str s => s
  | .map m => (PlainValue.mapping m).render

end RuleValue

end LayeredConfig
