import LayeredConfig.Pattern.Basic
import LayeredConfig.Text.Chars

/-!
# Normal forms of patterns

How large the automaton of a pattern is depends on its normal form. In a normal form adjacent
literals are one, sequences and choices are not nested directly, choices between single characters
are sets, and what the alternatives of a choice begin with in common stands before it. The functions
`ofSet`, `concat`, `alternation` and `repetition` build normal forms from normal forms.
-/

namespace LayeredConfig.Pattern

/-- The normal form of a pattern. -/
inductive Normal
  | empty
  /-- Some characters, one after the other: at least one. -/
  | literal (text : List Char)
  /-- One character of a set that does not have exactly one element. -/
  | oneOf (set : CharSet) (unicode : Bool)
  | assert (a : Assertion)
  /-- At least two patterns, one after the other. -/
  | concat (ps : List Normal)
  /-- Any of at least two patterns. -/
  | alternation (ps : List Normal)
  | repetition (p : Normal) (min : Nat) (max : Option Nat) (greedy : Bool)
  /-- A pattern whose match is captured. -/
  | capture (p : Normal)
deriving Repr

namespace Normal

/-! ## Properties -/

mutual

/-- The number of nodes of a normal form. -/
def size : Normal → Nat
  | .empty | .literal _ | .oneOf _ _ | .assert _ => 1
  | .concat ps | .alternation ps => sizeOfAll ps + 1
  | .repetition p _ _ _ | .capture p => p.size + 1

/-- The number of nodes of some normal forms together. -/
def sizeOfAll : List Normal → Nat
  | [] => 0
  | p :: ps => p.size + sizeOfAll ps

end

mutual

/-- Whether two normal forms are equal. What two groups capture is never the same. -/
def same : Normal → Normal → Bool
  | .empty, .empty => true
  | .literal s, .literal t => s == t
  | .oneOf s u, .oneOf t v => s == t && u == v
  | .assert a, .assert b => a == b
  | .concat ps, .concat qs | .alternation ps, .alternation qs => sameAll ps qs
  | .repetition p m n g, .repetition q m' n' g' => m == m' && n == n' && g == g' && p.same q
  | _, _ => false

/-- Whether two lists of normal forms are equal. -/
def sameAll : List Normal → List Normal → Bool
  | [], [] => true
  | p :: ps, q :: qs => p.same q && sameAll ps qs
  | _, _ => false

end

/-- The least of some lengths. There is none if one of them is missing. -/
def minOf : List (Option Nat) → Option Nat
  | [] => none
  | [n] => n
  | n :: ns => do return min (← n) (← minOf ns)

/-- The greatest of some lengths. There is none if one of them is missing. -/
def maxOf : List (Option Nat) → Option Nat
  | [] => none
  | [n] => n
  | n :: ns => do return max (← n) (← maxOf ns)

/-- The sum of some lengths. There is none if one of them is missing. -/
def sumOf : List (Option Nat) → Option Nat
  | [] => some 0
  | n :: ns => do return (← n) + (← sumOf ns)

mutual

/-- A length in bytes below which nothing matches, if anything matches at all. -/
def minLength? : Normal → Option Nat
  | .empty | .assert _ => some 0
  | .literal text => some (Text.byteLength text)
  | .oneOf set _ => set.ranges.head?.map fun (low, _) => (Text.utf8Bytes low).length
  | .concat ps => sumOf (minLengths ps)
  | .alternation ps => minOf (minLengths ps)
  | .repetition p min _ _ => p.minLength?.map (· * min)
  | .capture p => p.minLength?

/-- The least length of each of some normal forms. -/
def minLengths : List Normal → List (Option Nat)
  | [] => []
  | p :: ps => p.minLength? :: minLengths ps

end

mutual

/-- A length in bytes above which nothing matches, if there is a bound and anything matches. -/
def maxLength? : Normal → Option Nat
  | .empty | .assert _ => some 0
  | .literal text => some (Text.byteLength text)
  | .oneOf set _ => set.ranges.getLast?.map fun (_, high) => (Text.utf8Bytes high).length
  | .concat ps => sumOf (maxLengths ps)
  | .alternation ps => maxOf (maxLengths ps)
  | .repetition p _ max _ => do return (← p.maxLength?) * (← max)
  | .capture p => p.maxLength?

/-- The greatest length of each of some normal forms. -/
def maxLengths : List Normal → List (Option Nat)
  | [] => []
  | p :: ps => p.maxLength? :: maxLengths ps

end

/-- Whether a pattern matches the empty text only, if anything. -/
def isEmptyOnly (p : Normal) : Bool :=
  p.maxLength? == some 0

mutual

/-- Whether a match is bound to begin with an assertion, as far as the form of the pattern shows. -/
def startsWith (a : Assertion) : Normal → Bool
  | .assert b => a == b
  | .concat ps => anyStartsWith a ps
  | .alternation ps => allStartWith a ps
  | .repetition p min _ _ => 0 < min && p.startsWith a
  | .capture p => p.startsWith a
  | _ => false

/-- The same for patterns one after the other, of which those count that come before any text. -/
def anyStartsWith (a : Assertion) : List Normal → Bool
  | [] => false
  | p :: ps => p.startsWith a || (p.isEmptyOnly && anyStartsWith a ps)

/-- The same for each of some patterns. -/
def allStartWith (a : Assertion) : List Normal → Bool
  | [] => true
  | p :: ps => p.startsWith a && allStartWith a ps

end

mutual

/-- Whether a match is bound to end with an assertion, as far as the form of the pattern shows. -/
def endsWith (a : Assertion) : Normal → Bool
  | .assert b => a == b
  | .concat ps => (anyEndsWith a ps).1
  | .alternation ps => allEndWith a ps
  | .repetition p min _ _ => 0 < min && p.endsWith a
  | .capture p => p.endsWith a
  | _ => false

/-- The same for patterns one after the other, of which those count that come after any text, and
whether all of the patterns match the empty text only. -/
def anyEndsWith (a : Assertion) : List Normal → Bool × Bool
  | [] => (false, true)
  | p :: ps =>
    let (found, isEmpty) := anyEndsWith a ps
    (found || (isEmpty && p.endsWith a), isEmpty && p.isEmptyOnly)

/-- The same for each of some patterns. -/
def allEndWith (a : Assertion) : List Normal → Bool
  | [] => true
  | p :: ps => p.endsWith a && allEndWith a ps

end

/-! ## Building -/

/-- One character of a set. A single one is a literal. -/
def ofSet (set : CharSet) (unicode : Bool) : Normal :=
  match set.ranges with
  | [] => .oneOf .empty false
  | [(low, high)] => if low = high then .literal [Char.ofNat low] else .oneOf set unicode
  | _ => .oneOf set unicode

/-- What a normal form contributes to a sequence. -/
def sequenceItems : Normal → List Normal
  | .empty => []
  | .concat ps => ps
  | p => [p]

/-- Puts an item before a sequence. A literal joins one that follows. -/
def prepend : Normal → List Normal → List Normal
  | .literal s, .literal t :: ps => .literal (s ++ t) :: ps
  | p, ps => p :: ps

/-- Some normal forms, one after the other. -/
def sequence (ps : List Normal) : Normal :=
  match (ps.flatMap sequenceItems).foldr prepend [] with
  | [] => .empty
  | [p] => p
  | ps => .concat ps

/-- A normal form some number of times. The empty text once is the empty text as often as one
likes. -/
def repeated (p : Normal) (min : Nat) (max : Option Nat) (greedy : Bool) : Normal :=
  let (min, max) :=
    if p.isEmptyOnly then (Nat.min min 1, some (max.elim 1 (Nat.min · 1))) else (min, max)
  if max = some 0 then .empty
  else if min = 1 ∧ max = some 1 then p
  else .repetition p min max greedy

/-- What a normal form contributes to a choice. -/
def choices : Normal → List Normal
  | .alternation ps => ps
  | p => [p]

/-- The characters of normal forms that all are single characters. -/
def characters? : List Normal → Option (List Char)
  | [] => some []
  | .literal [c] :: ps => (characters? ps).map (c :: ·)
  | _ => none

/-- The set of all characters of normal forms that all are sets. -/
def unionOfSets? : List Normal → Option CharSet
  | [] => some .empty
  | .oneOf set _ :: ps => (unionOfSets? ps).map set.union
  | _ => none

/-- The items of normal forms that all are sequences. -/
def sequences? : List Normal → Option (List (List Normal))
  | [] => some []
  | .concat items :: ps => (sequences? ps).map (items :: ·)
  | _ => none

/-- The number of items that two sequences begin with in common. -/
def commonLength : List Normal → List Normal → Nat
  | p :: ps, q :: qs => if p.same q then commonLength ps qs + 1 else 0
  | _, _ => 0

/-- The number of items that a sequence and some others begin with in common. -/
def commonPrefixLength (first : List Normal) (others : List (List Normal)) : Nat :=
  others.foldl (fun n items => commonLength (first.take n) items) first.length

/-- Any of some normal forms. What all of them begin with is taken out, which leaves a choice with
fewer nodes; `fuel` is their number. -/
def choice : (fuel : Nat) → (ps : List Normal) → Normal
  | 0, ps => .alternation ps
  | fuel + 1, ps =>
    match ps.flatMap choices with
    | [] => .oneOf .empty false
    | [p] => p
    | ps =>
      match characters? ps, unionOfSets? ps, sequences? ps with
      | some cs, _, _ => ofSet (CharSet.ofRanges (cs.map fun c => (c, c))) true
      | none, some set, _ => ofSet set true
      | none, none, some (first :: others) =>
        let n := commonPrefixLength first others
        if n = 0 then .alternation ps
        else
          let rests := (first :: others).map fun items => sequence (items.drop n)
          sequence (first.take n ++ [choice fuel rests])
      | _, _, _ => .alternation ps

end Normal

mutual

/-- The normal form of a pattern. -/
def normal : Pattern → Normal
  | .empty => .empty
  | .oneOf cls => .ofSet cls.set cls.unicode
  | .assert a => .assert a
  | .concat ps => .sequence (normalOfAll ps)
  | .alternation ps =>
    let ps := normalOfAll ps
    .choice (Normal.sizeOfAll ps) ps
  | .repetition p min max greedy => p.normal.repeated min max greedy
  | .group p captures => if captures then .capture p.normal else p.normal

/-- The normal forms of some patterns. -/
def normalOfAll : List Pattern → List Normal
  | [] => []
  | p :: ps => p.normal :: normalOfAll ps

end

end LayeredConfig.Pattern
