/-!
# Code points in UTF-8

A code point takes one to four bytes in UTF-8. The code points of a range have the same byte
sequences as a list of products of byte ranges, which `byteRanges` gives in ascending order.
-/

namespace LayeredConfig.Text

/-- The bytes of a code point in UTF-8. -/
def utf8Bytes (code : Nat) : List Nat :=
  (String.utf8EncodeChar (Char.ofNat code)).map UInt8.toNat

/-- The ranges of code points with the same number of bytes. No code point is a surrogate. -/
def utf8Blocks : List (Nat × Nat) :=
  [(0x00, 0x7F), (0x80, 0x7FF), (0x800, 0xD7FF), (0xE000, 0xFFFF), (0x10000, 0x10FFFF)]

/-- The part that two ranges share. -/
def meet? (a b : Nat × Nat) : Option (Nat × Nat) :=
  let low := max a.1 b.1
  let high := min a.2 b.2
  if low ≤ high then some (low, high) else none

/-- Cuts a range where it starts or ends inside a block of the given sizes, smaller blocks first,
so that in each piece all bytes but the first differing one range over everything. -/
def alignedPieces : (sizes : List Nat) → (low high : Nat) → List (Nat × Nat)
  | [], low, high => [(low, high)]
  | size :: sizes, low, high =>
    if low / size = high / size then [(low, high)]
    else
      let start := (low + size - 1) / size * size
      let first := if low < start then [(low, start - 1)] else []
      if start / size = high / size then first ++ [(start, high)]
      else
        let stop := (high + 1) / size * size
        let last := if stop ≤ high then [(stop, high)] else []
        first ++ alignedPieces sizes start (stop - 1) ++ last

/-- The byte sequences of the code points of a range. -/
def byteRanges (low high : Nat) : List (List (Nat × Nat)) :=
  let blocks := utf8Blocks.filterMap (meet? (low, high))
  let pieces := blocks.flatMap fun (low, high) =>
    if high < 0x80 then [(low, high)] else alignedPieces [64, 4096, 262144] low high
  pieces.map fun (low, high) => (utf8Bytes low).zip (utf8Bytes high)

end LayeredConfig.Text
