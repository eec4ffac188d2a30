import LayeredConfig.Document.Progress

/-!
# Reading a whole document

`readItems` reads the items of a text one after the other, each with the byte at which it starts.
Reading stops at the first place that is no item; the items before it still count.
-/

namespace LayeredConfig.Document

open Text

/-- The items of a text, and the byte at which something else stands, if there is such a place. -/
structure Reading where
  items : List PlacedItem
  fault : Option Nat
deriving DecidableEq, Repr

/-- Reads the items of what is left of a text of `size` bytes. -/
def readItems (mode : Mode) (size : Nat) (cs : List Char) : Reading :=
  match h : nextItem mode cs with
  | .finished => { items := [], fault := none }
  | .malformed place => { items := [], fault := some (size - byteLength place) }
  | .item start item rest =>
    have := nextItem_length_lt h
    let reading := readItems mode size rest
    { reading with items := ⟨size - byteLength start, item⟩ :: reading.items }
termination_by cs.length

/-- Reads the items of a text. -/
def read (mode : Mode) (source : String) : Reading :=
  readItems mode (byteLength source.toList) source.toList

end LayeredConfig.Document
