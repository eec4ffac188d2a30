import LayeredConfig.Pattern.Basic

/-!
# Matching

A text of `n` characters has `n + 1` places: before each character, and at the end. A set of
places is a list of `n + 1` truth values, one for each place in order. `advance text p places` are
the places at which a match of `p` can end that starts at one of `places`, and a pattern matches a
text when a match starts anywhere in it.
-/

namespace LayeredConfig.Pattern

/-- A set of places of a text. -/
abbrev Places := List Bool

/-- The characters on the two sides of every place of a text. -/
def sides (text : List Char) : List (Option Char × Option Char) :=
  (none :: text.map some).zip (text.map some ++ [none])

/-- A word character of ASCII. -/
def isAsciiWordChar (c : Char) : Bool :=
  c.isAlphanum || c == '_'

/-- Whether a place lies to the words around it as required, given whether the characters before
and after it are word characters. -/
def WordEdge.holds (before after : Bool) : WordEdge → Bool
  | .boundary => before != after
  | .inside => before == after
  | .start => !before && after
  | .stop => before && !after
  | .startHalf => !before
  | .stopHalf => !after

/-- Whether an assertion holds at a place, given the characters before and after it. -/
def Assertion.holds (before after : Option Char) : Assertion → Bool
  | .textStart => before.isNone
  | .textEnd => after.isNone
  | .lineStart => before.all (· == '\n')
  | .lineEnd => after.all (· == '\n')
  | .lineStartCrlf =>
    before.all fun c => c == '\n' || (c == '\r' && after != some '\n')
  | .lineEndCrlf =>
    after.all fun c => c == '\r' || (c == '\n' && before != some '\r')
  | .word true edge => edge.holds (before.any Text.isWordChar) (after.any Text.isWordChar)
  | .word false edge => edge.holds (before.any isAsciiWordChar) (after.any isAsciiWordChar)

namespace Places

/-- The places of two sets together. -/
def union (a b : Places) : Places :=
  a.zipWith (· || ·) b

/-- The places of one set that are not in another. -/
def diff (a b : Places) : Places :=
  a.zipWith (fun x y => x && !y) b

/-- Whether a set has no places. -/
def isNone (places : Places) : Bool :=
  !places.contains true

/-- No places, in a text with as many places as `places` is about. -/
def none (places : Places) : Places :=
  places.map fun _ => false

end Places

/-- The places that exactly `n` steps lead to. Once a step changes nothing, no later one does. -/
def stepTimes (step : Places → Places) : (n : Nat) → Places → Places
  | 0, places => places
  | n + 1, places =>
    let next := step places
    if next = places then places else stepTimes step n next

/-- The places that at most `n` more steps lead to, given those `seen` already and the `last` ones
among them. -/
def stepAtMost (step : Places → Places) : (n : Nat) → (seen last : Places) → Places
  | 0, seen, _ => seen
  | n + 1, seen, last =>
    let fresh := (step last).diff seen
    if fresh.isNone then seen else stepAtMost step n (seen.union fresh) fresh

/-- The places that at least `min` and at most `max` steps lead to. As many steps as `bound`, the
number of places, lead everywhere that any number of steps can lead to. When the last of the first
`min` steps leads to no new place, further ones do not either. -/
def stepBetween (step : Places → Places) (bound : Nat) (max : Option Nat) :
    (min : Nat) → Places → Places
  | 0, places => stepAtMost step (more 0) places places
  | n + 1, places =>
    let before := stepTimes step n places
    let after := step before
    if (after.diff before).isNone then after else stepAtMost step (more (n + 1)) after after
where
  /-- The number of steps after the first `min` ones. -/
  more (min : Nat) : Nat :=
    match max with
    | none => bound
    | some max => Nat.min (max - min) bound

mutual

/-- The places at which a match can end that starts at one of `places`. -/
def advance (text : List Char) : (p : Pattern) → (places : Places) → Places
  | .empty, places => places
  | .oneOf cls, places => false :: places.zipWith (fun here c => here && cls.set.mem c) text
  | .assert a, places =>
    places.zipWith (fun here (before, after) => here && a.holds before after) (sides text)
  | .concat ps, places => advanceAll text ps places
  | .alternation ps, places => advanceAny text ps places
  | .repetition p min max _, places =>
    stepBetween (fun q => advance text p q) (text.length + 1) max min places
  | .group p _, places => advance text p places

/-- The places at which matches of some patterns, one after the other, can end. -/
def advanceAll (text : List Char) : (ps : List Pattern) → (places : Places) → Places
  | [], places => places
  | p :: ps, places => advanceAll text ps (advance text p places)

/-- The places at which a match of any of some patterns can end. -/
def advanceAny (text : List Char) : (ps : List Pattern) → (places : Places) → Places
  | [], places => places.none
  | p :: ps, places => (advance text p places).union (advanceAny text ps places)

end

/-- Whether some part of a text matches. -/
def isMatch (p : Pattern) (text : String) : Bool :=
  let cs := text.toList
  (advance cs p (List.replicate (cs.length + 1) true)).contains true

end LayeredConfig.Pattern
