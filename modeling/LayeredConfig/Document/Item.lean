/-!
# The items of a document

A document is a sequence of items: section headers, commands, and assignments. An item says only
what is written; what it does to a section tree is another matter.
-/

namespace LayeredConfig

/-- How the names of keys and sections are read. -/
inductive Mode
  /-- Names consist of ASCII letters, digits, underscores, dots and hyphens. -/
  | config
  /-- Names are patterns, and run up to the next white space. -/
  | schema
deriving DecidableEq, Repr

/-- The mark in front of a key. -/
inductive Marker
  /-- Written `^`. -/
  | mandatory
  /-- Written `!`. -/
  | final
  /-- Written `~`. -/
  | temporary
deriving DecidableEq, Repr

/-- How an assignment treats the references in its value. -/
inductive AssignOp
  /-- Written `=`: evaluated once the document is complete. -/
  | deferred
  /-- Written `:=`: evaluated at once. -/
  | immediate
deriving DecidableEq, Repr

/-- One item of a document. -/
inductive Item
  /-- A section header, with the numbers of its opening and closing brackets. -/
  | header (opening closing : Nat) (name : String)
  | command (name argument : String)
  | assign (marker : Option Marker) (key : String) (op : AssignOp) (value : String)
deriving DecidableEq, Repr

/-- An item and the byte at which it starts. -/
structure PlacedItem where
  offset : Nat
  item : Item
deriving DecidableEq, Repr

end LayeredConfig
