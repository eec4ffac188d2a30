import LayeredConfig.Text.Ranges

/-!
# White space

Two classes of blank characters matter: the Unicode property `White_Space`, and the horizontal
white space that a document ignores outside quoted values.
-/

namespace LayeredConfig.Text

/-- The code points of the property `White_Space`. -/
def whitespaceRanges : List (Nat × Nat) :=
  [(0x09, 0x0D), (0x20, 0x20), (0x85, 0x85), (0xA0, 0xA0), (0x1680, 0x1680), (0x2000, 0x200A),
   (0x2028, 0x2029), (0x202F, 0x202F), (0x205F, 0x205F), (0x3000, 0x3000)]

/-- White space of any script. -/
def isWhitespace (c : Char) : Bool :=
  inRanges whitespaceRanges c

/-- Horizontal white space: what separates the words of one line. -/
def isSpace (c : Char) : Bool :=
  c == ' ' || c == '\t' || c == '\r' || c == '\x0b' || c == '\x0c'

/-- Text without the white space around it. -/
def trim (cs : List Char) : List Char :=
  ((cs.dropWhile isWhitespace).reverse.dropWhile isWhitespace).reverse

end LayeredConfig.Text
