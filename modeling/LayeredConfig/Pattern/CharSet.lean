import LayeredConfig.Text.CaseFolding
import LayeredConfig.Text.DecimalDigit
import LayeredConfig.Text.Utf8
import LayeredConfig.Text.Whitespace
import LayeredConfig.Text.Word

/-!
# Sets of characters

What a character class of a pattern stands for. A set is given by the ranges of its code points,
in ascending order and with something between any two of them, so that it has one form only. The
operations keep that form.
-/

namespace LayeredConfig.Pattern

open Text

/-- A set of characters. -/
structure CharSet where
  /-- The first and the last code point of every range. -/
  ranges : List (Nat × Nat)
deriving DecidableEq, Repr

namespace CharSet

/-- Whether a set holds a character. -/
def mem (set : CharSet) (c : Char) : Bool :=
  inRanges set.ranges c

/-! ## Basic sets -/

/-- No characters. -/
def empty : CharSet := ⟨[]⟩

/-- The characters from `low` to `high`, both included. -/
def range (low high : Char) : CharSet := ⟨[(low.toNat, high.toNat)]⟩

/-- The set of one character. -/
def single (c : Char) : CharSet := .range c c

/-- Decimal digits of any script. -/
def digit : CharSet := ⟨decimalDigitRanges⟩

/-- White space of any script. -/
def space : CharSet := ⟨whitespaceRanges⟩

/-- Word characters of any script. -/
def word : CharSet := ⟨wordRanges⟩

/-! ## Operations -/

/-- Adds a range to ascending ranges, and joins it with those that it meets. -/
def insertRange (low high : Nat) : List (Nat × Nat) → List (Nat × Nat)
  | [] => [(low, high)]
  | (a, b) :: rest =>
    if high + 1 < a then (low, high) :: (a, b) :: rest
    else if b + 1 < low then (a, b) :: insertRange low high rest
    else insertRange (min low a) (max high b) rest

/-- The characters of some ranges, and those of a set. -/
def insertAll (ranges : List (Nat × Nat)) (set : CharSet) : CharSet :=
  ⟨ranges.foldl (fun all (low, high) => insertRange low high all) set.ranges⟩

/-- The set of the characters of some ranges. -/
def ofRanges (ranges : List (Char × Char)) : CharSet :=
  insertAll (ranges.map fun (low, high) => (low.toNat, high.toNat)) empty

/-- The characters of two sets together. -/
def union (a b : CharSet) : CharSet :=
  insertAll b.ranges a

/-- The characters that two sets share. -/
def intersection (a b : CharSet) : CharSet :=
  ⟨a.ranges.flatMap fun r => b.ranges.filterMap (meet? r)⟩

/-- The code point after another. There are none from U+D800 to U+DFFF. -/
def codeAfter (code : Nat) : Nat :=
  if code = 0xD7FF then 0xE000 else code + 1

/-- The code point before another. -/
def codeBefore (code : Nat) : Nat :=
  if code = 0xE000 then 0xD7FF else code - 1

/-- What is left of a range without the characters of ascending ranges. -/
def removeRanges (low high : Nat) : List (Nat × Nat) → List (Nat × Nat)
  | [] => [(low, high)]
  | (a, b) :: rest =>
    if b < low then removeRanges low high rest
    else if high < a then [(low, high)]
    else
      (if low < a then [(low, codeBefore a)] else []) ++
        if b < high then removeRanges (codeAfter b) high rest else []

/-- The characters of one set that are not in another. -/
def difference (a b : CharSet) : CharSet :=
  ⟨a.ranges.flatMap fun (low, high) => removeRanges low high b.ranges⟩

/-- The characters of exactly one of two sets. -/
def symmetricDifference (a b : CharSet) : CharSet :=
  difference (union a b) (intersection a b)

/-- The ranges between ascending ranges, and after them up to the last code point, given the code
point `last` before them. Nothing lies between a range that ends at U+D7FF and one that begins at
U+E000; there both of these code points are taken. -/
def gapsAfter (last : Nat) : List (Nat × Nat) → List (Nat × Nat)
  | [] => if last < 0x10FFFF then [(codeAfter last, 0x10FFFF)] else []
  | (low, high) :: rest =>
    let first := codeAfter last
    let stop := codeBefore low
    (min first stop, max first stop) :: gapsAfter high rest

/-- All other characters. -/
def complement (set : CharSet) : CharSet :=
  match set.ranges with
  | [] => ⟨[(0, 0x10FFFF)]⟩
  | (low, high) :: rest =>
    ⟨(if 0 < low then [(0, codeBefore low)] else []) ++ gapsAfter high rest⟩

/-- Whether a set shares a code point with a range. -/
def meets (set : CharSet) (low high : Nat) : Bool :=
  set.ranges.any fun (a, b) => a ≤ high && low ≤ b

/-- All characters that differ from one of a set at most as some foldings tell: first all that
characters of the set fold to are found, then all that fold to these. -/
def foldBy (runs : List FoldingRun) (set : CharSet) : CharSet :=
  let touched := runs.filter fun run =>
    set.meets run.first run.last || set.meets run.target run.lastTarget
  let targets := (touched.flatMap FoldingRun.pairs).filter fun (source, target) =>
    set.meets source source || set.meets target target
  let folded := insertAll (targets.map fun (_, target) => (target, target)) empty
  let related := (runs.filter fun run => folded.meets run.target run.lastTarget).flatMap
    FoldingRun.pairs
  let sources := related.filter fun (_, target) => folded.meets target target
  insertAll folded.ranges (insertAll (sources.map fun (source, _) => (source, source)) set)

/-- All characters that differ from one of a set at most in case. -/
def anyCase (set : CharSet) : CharSet :=
  set.foldBy foldingRuns

/-- The same, with only the ASCII letters having a case. -/
def anyCaseAscii (set : CharSet) : CharSet :=
  set.foldBy asciiFoldingRuns

/-- Whether a set holds ASCII characters only. -/
def isAscii (set : CharSet) : Bool :=
  set.ranges.all fun (_, high) => high < 0x80

/-! ## Names -/

/-- The ASCII class with the given name. -/
def asciiClass? : String → Option CharSet
  | "alnum" => some (ofRanges [('0', '9'), ('A', 'Z'), ('a', 'z')])
  | "alpha" => some (ofRanges [('A', 'Z'), ('a', 'z')])
  | "ascii" => some (ofRanges [('\x00', '\x7f')])
  | "blank" => some (ofRanges [('\t', '\t'), (' ', ' ')])
  | "cntrl" => some (ofRanges [('\x00', '\x1f'), ('\x7f', '\x7f')])
  | "digit" => some (ofRanges [('0', '9')])
  | "graph" => some (ofRanges [('!', '~')])
  | "lower" => some (ofRanges [('a', 'z')])
  | "print" => some (ofRanges [(' ', '~')])
  | "punct" => some (ofRanges [('!', '/'), (':', '@'), ('[', '\x60'), ('\x7b', '~')])
  | "space" => some (ofRanges [('\t', '\r'), (' ', ' ')])
  | "upper" => some (ofRanges [('A', 'Z')])
  | "word" => some (ofRanges [('0', '9'), ('A', 'Z'), ('_', '_'), ('a', 'z')])
  | "xdigit" => some (ofRanges [('0', '9'), ('A', 'F'), ('a', 'f')])
  | _ => none

end CharSet

end LayeredConfig.Pattern
