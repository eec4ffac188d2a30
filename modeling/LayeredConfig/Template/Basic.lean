import LayeredConfig.Template.Reference

/-!
# Templates

A template is a value with references in it: a list of literal texts, references, and captured
templates. Its source form writes a reference as its path between `(!` and `)`, and doubles the
parenthesis of a literal `(!`.

A scalar is what a key that is not a section holds: a text, or a template still to be evaluated.
-/

namespace LayeredConfig

/-- One piece of a template. -/
inductive Fragment
  | literal (text : String)
  | reference (ref : Reference)
  /-- The value of another key, captured before it was evaluated. -/
  | nested (fragments : List Fragment)
deriving Repr

namespace Fragment

mutual

/-- Decides whether two fragments are the same. -/
def decEq : (a b : Fragment) → Decidable (a = b)
  | .literal s, .literal t =>
    if h : s = t then .isTrue (by rw [h]) else .isFalse (by intro e; cases e; exact h rfl)
  | .reference r, .reference q =>
    if h : r = q then .isTrue (by rw [h]) else .isFalse (by intro e; cases e; exact h rfl)
  | .nested fs, .nested gs =>
    match decEqList fs gs with
    | .isTrue h => .isTrue (by rw [h])
    | .isFalse h => .isFalse (by intro e; cases e; exact h rfl)
  | .literal _, .reference _ => .isFalse nofun
  | .literal _, .nested _ => .isFalse nofun
  | .reference _, .literal _ => .isFalse nofun
  | .reference _, .nested _ => .isFalse nofun
  | .nested _, .literal _ => .isFalse nofun
  | .nested _, .reference _ => .isFalse nofun

/-- Decides whether two lists of fragments are the same. -/
def decEqList : (as bs : List Fragment) → Decidable (as = bs)
  | [], [] => .isTrue rfl
  | [], _ :: _ => .isFalse nofun
  | _ :: _, [] => .isFalse nofun
  | a :: as, b :: bs =>
    match decEq a b with
    | .isFalse h => .isFalse (by intro e; cases e; exact h rfl)
    | .isTrue h =>
      match decEqList as bs with
      | .isTrue h' => .isTrue (by rw [h, h'])
      | .isFalse h' => .isFalse (by intro e; cases e; exact h' rfl)

end

instance : DecidableEq Fragment := decEq

/-- A literal text with every `(!` written as `((!`. -/
def escape : List Char → List Char
  | '(' :: '!' :: cs => '(' :: '(' :: '!' :: escape cs
  | c :: cs => c :: escape cs
  | [] => []

/-- A literal text with every `((!` read as `(!`. -/
def unescape : List Char → List Char
  | '(' :: '(' :: '!' :: cs => '(' :: '!' :: unescape cs
  | c :: cs => c :: unescape cs
  | [] => []

mutual

/-- The source form of a fragment. -/
def source : Fragment → List Char
  | .literal text => escape text.toList
  | .reference ref => '(' :: '!' :: ref.render.toList ++ [')']
  | .nested fragments => sourceList fragments

/-- The source forms of some fragments, one after the other. -/
def sourceList : List Fragment → List Char
  | [] => []
  | fragment :: fragments => fragment.source ++ sourceList fragments

end

/-- The text of a literal fragment. -/
def literal? : Fragment → Option String
  | .literal text => some text
  | _ => none

end Fragment

/-- A value that may hold references. -/
structure Template where
  fragments : List Fragment
deriving DecidableEq, Repr

/-- What a key that is not a section holds. -/
inductive Scalar
  | text (value : String)
  /-- A value with references that are still to be evaluated. -/
  | template (value : Template)
deriving DecidableEq, Repr

namespace Template

/-- The source form of a template. -/
def render (template : Template) : String :=
  String.ofList (Fragment.sourceList template.fragments)

/-- The template as a plain text, if nothing but literals is left in it. -/
def collapse (template : Template) : Scalar :=
  match template.fragments.mapM Fragment.literal? with
  | some texts => .text (String.join texts)
  | none => .template template

end Template

namespace Scalar

/-- The text of a scalar, which for a template is its source form. -/
def render : Scalar → String
  | .text value => value
  | .template value => value.render

/-- The text of a scalar that is evaluated. -/
def text? : Scalar → Option String
  | .text value => some value
  | .template _ => none

end Scalar

end LayeredConfig
