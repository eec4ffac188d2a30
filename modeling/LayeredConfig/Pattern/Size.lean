import LayeredConfig.Pattern.Automaton
import LayeredConfig.Pattern.Normal

/-!
# The size of patterns

A pattern is accepted when two automata for it both fit into `maxMemory` bytes: one that reads
forwards and knows what is captured, and one that reads backwards and does not.
-/

namespace LayeredConfig.Pattern

/-- The way in which an automaton reads a text. -/
inductive Direction
  | forwards
  | backwards
deriving DecidableEq, Repr

namespace Building

/-! ## Parts of an automaton

Building a part tells whether its last state is a fork. A fork has as many jumps as are needed, and
each takes memory; any other state has room for the one that leads on from it. -/

/-- Leads on from a state. -/
def leadOn (isFork : Bool) : Building Unit :=
  if isFork then grow jumpMemory else pure ()

/-- Adds a fork with some jumps. -/
def addFork (jumps : Nat) : Building Unit :=
  addStates 1 (jumps * jumpMemory)

/-- Parts one after the other, after a part that ends in a fork or not. -/
def chainAfter (isFork : Bool) : List (Building Bool) → Building Bool
  | [] => return isFork
  | part :: parts => do
    let next ← part
    leadOn isFork
    chainAfter next parts

/-- Parts one after the other. -/
def chain : List (Building Bool) → Building Bool
  | [] => do
    addStates 1 0
    return false
  | part :: parts => do chainAfter (← part) parts

/-- Any of some parts. -/
def branches : List (Building Bool) → Building Bool
  | part :: second :: parts => do
    let isFork ← part
    let isFork' ← second
    addFork 2
    addStates 1 0
    leadOn isFork
    leadOn isFork'
    parts.forM fun part => do
      let isFork ← part
      grow jumpMemory
      leadOn isFork
    return false
  | [part] => part
  | [] => do
    addStates 2 0
    return false

/-- A part `n` more times, after a part that ends in a fork or not. -/
def againAfter (part : Building Bool) : (n : Nat) → (isFork : Bool) → Building Bool
  | 0, isFork => return isFork
  | n + 1, isFork => do
    let next ← part
    leadOn isFork
    againAfter part n next

/-- A part `n` times. -/
def times (part : Building Bool) : (n : Nat) → Building Bool
  | 0 => do
    addStates 1 0
    return false
  | n + 1 => do againAfter part n (← part)

/-- A part at most `n` more times, after a part that ends in a fork or not. -/
def atMostAfter (part : Building Bool) : (n : Nat) → (isFork : Bool) → Building Unit
  | 0, isFork => leadOn isFork
  | n + 1, isFork => do
    addFork 2
    let next ← part
    leadOn isFork
    atMostAfter part n next

/-- A part at least `min` times and at most `max` times, if there is a bound. A part that can be
empty takes two forks when it may be left out. -/
def repetition (part : Building Bool) (canBeEmpty : Bool) :
    (min : Nat) → (max : Option Nat) → Building Bool
  | 0, some 1 => do
    addFork 2
    leadOn (← part)
    addStates 1 0
    return false
  | 0, none => do
    if canBeEmpty then
      leadOn (← part)
      addFork 2
      addFork 2
      addStates 1 0
      return false
    else
      addFork 1
      leadOn (← part)
      return true
  | 1, none => do
    leadOn (← part)
    addFork 1
    return true
  | n + 2, none => do
    let isFork ← times part (n + 1)
    let isFork' ← part
    addFork 1
    leadOn isFork
    leadOn isFork'
    return true
  | min, some max => do
    let isFork ← times part min
    if min = max then return isFork
    addStates 1 0
    atMostAfter part (max - min) isFork
    return false

/-- One character of a set. Characters of ASCII are one transition a range. -/
def oneOf (direction : Direction) (set : CharSet) : Building Unit :=
  if set.isAscii then addStates 2 (set.ranges.length * transitionMemory)
  else
    let sequences := set.ranges.flatMap fun (low, high) => Text.byteRanges low high
    match direction with
    | .forwards => addForwards sequences
    | .backwards => addBackwards sequences

end Building

namespace Normal

/-! ## Whole patterns -/

/-- The bytes of some characters, in the order in which they are read. -/
def literalBytes (direction : Direction) (text : List Char) : List Nat :=
  let bytes := text.flatMap fun c => Text.utf8Bytes c.toNat
  match direction with
  | .forwards => bytes
  | .backwards => bytes.reverse

/-- The bytes of normal forms that all are literals. -/
def literals? (direction : Direction) : List Normal → Option (List (List Nat))
  | [] => some []
  | .literal text :: ps => (literals? direction ps).map (literalBytes direction text :: ·)
  | _ => none

mutual

/-- Builds the part for a normal form. -/
def build (direction : Direction) : Normal → Building Bool
  | .empty | .assert _ => do
    Building.addStates 1 0
    return false
  | .literal text => do
    Building.addStates (Text.byteLength text) 0
    return false
  | .oneOf set _ => do
    Building.oneOf direction set
    return false
  | .concat ps =>
    match direction with
    | .forwards => Building.chain (buildEach direction ps)
    | .backwards => Building.chain (buildEach direction ps).reverse
  | .alternation ps =>
    match literals? direction ps with
    | some literals => do
      Building.addTrie (Trie.ofLiterals literals)
      return false
    | none => Building.branches (buildEach direction ps)
  | .repetition p min max _ =>
    Building.repetition (p.build direction) (p.minLength?.all (· == 0)) min max
  | .capture p =>
    match direction with
    | .forwards => do
      Building.addStates 1 0
      let isFork ← p.build direction
      Building.addStates 1 0
      Building.leadOn isFork
      return false
    | .backwards => p.build direction

/-- How the part for each of some normal forms is built. -/
def buildEach (direction : Direction) : List Normal → List (Building Bool)
  | [] => []
  | p :: ps => p.build direction :: buildEach direction ps

end

/-- Builds the whole automaton. Unless every match begins where the reading begins, a loop that
skips a part of the text comes first. -/
def buildWhole (direction : Direction) (p : Normal) : Building Unit := do
  let isAnchored := match direction with
    | .forwards => p.startsWith .textStart
    | .backwards => p.endsWith .textEnd
  if isAnchored then Building.addStates 1 0
  else
    Building.addFork 2
    Building.addStates 2 transitionMemory
  let isFork ← match direction with
    | .forwards => (Normal.capture p).build direction
    | .backwards => p.build direction
  Building.addStates 1 0
  Building.leadOn isFork

mutual

/-- A number of bytes that neither automaton exceeds. A range of characters has at most seven
sequences of byte ranges, and each of them takes at most four states. -/
def memoryBound : Normal → Nat
  | .empty | .assert _ => 100
  | .literal text => 400 * text.length + 100
  | .oneOf set _ => 1200 * (set.ranges.length + 4)
  | .concat ps | .alternation ps => memoryBoundOfAll ps + 100
  | .repetition p min max _ => (p.memoryBound + 100) * (max.getD min + 2)
  | .capture p => p.memoryBound + 100

/-- The same for some normal forms together. -/
def memoryBoundOfAll : List Normal → Nat
  | [] => 0
  | p :: ps => p.memoryBound + 100 + memoryBoundOfAll ps

end

/-- Whether both automata of a pattern fit. They are built only where the estimate leaves a doubt.
-/
def fits (p : Normal) : Bool :=
  p.memoryBound + 500 ≤ maxMemory ||
    (((buildWhole .forwards p).run {}).isSome && ((buildWhole .backwards p).run {}).isSome)

end Normal

end LayeredConfig.Pattern
