import LayeredConfig.Pattern.CharSet
import LayeredConfig.Pattern.Trie
import Std.Data.HashMap

/-!
# Building automata

How much memory the automaton of a pattern takes is found by going through the steps that build it.
Of the automaton itself only the number of its states and their memory is kept, and for the set of
characters at hand the states that several of its characters can share. Building fails as soon as
the memory is more than `maxMemory`.
-/

namespace LayeredConfig.Pattern

/-- The most bytes that an automaton may take. -/
def maxMemory : Nat := 10485760

/-- The bytes of a state without its transitions. -/
def stateMemory : Nat := 32

/-- The bytes of a transition for a range of bytes. -/
def transitionMemory : Nat := 8

/-- The bytes of a transition that takes no byte. -/
def jumpMemory : Nat := 4

/-- A transition for a range of bytes. -/
structure Transition where
  low : Nat
  high : Nat
  /-- The number of the state that it leads to. -/
  next : Nat
deriving DecidableEq, Repr

/-- An automaton as far as it is built. -/
structure Automaton where
  /-- How many states there are. They are numbered in the order in which they are added. -/
  states : Nat := 0
  memory : Nat := 0
  /-- The states that can be shared, each in a slot that its transitions determine. A later state
  takes the slot of an earlier one. -/
  shared : Std.HashMap Nat (List Transition × Nat) := {}

/-- A step of building, which fails when the automaton becomes too large. -/
abbrev Building := StateT Automaton Option

namespace Building

/-- Adds bytes to the memory. -/
def grow (bytes : Nat) : Building Unit := fun automaton =>
  let memory := automaton.memory + bytes
  if memory ≤ maxMemory then some ((), { automaton with memory }) else none

/-- Adds a state with some bytes beside its own, and gives its number. -/
def addState (bytes : Nat) : Building Nat := do
  grow (stateMemory + bytes)
  modifyGet fun automaton =>
    (automaton.states, { automaton with states := automaton.states + 1 })

/-- Adds some states that are not looked at again. -/
def addStates (count bytes : Nat) : Building Unit := do
  grow (count * stateMemory + bytes)
  modify fun automaton => { automaton with states := automaton.states + count }

/-! ## Sharing -/

/-- One step of the hash by which slots are chosen. -/
def mixHash (hash : UInt64) (n : Nat) : UInt64 :=
  (hash ^^^ n.toUInt64) * 1099511628211

/-- The slot among `count` ones that some numbers determine. -/
def slotOf (count : Nat) (numbers : List Nat) : Nat :=
  (numbers.foldl mixHash 14695981039346656037).toNat % count

/-- Forgets the states that could be shared. -/
def shareNothing : Building Unit :=
  modify fun automaton => { automaton with shared := {} }

/-- A state with the given transitions: the one in the slot if it has the same ones, and a new one
otherwise. -/
def shareState (slot : Nat) (transitions : List Transition) (bytes : Nat) : Building Nat := do
  match (← get).shared[slot]? with
  | some (known, state) => if known = transitions then return state
  | none => pure ()
  let state ← addState bytes
  modify fun automaton =>
    { automaton with shared := automaton.shared.insert slot (transitions, state) }
  return state

/-! ## Sets of characters, read forwards -/

/-- A state that is not complete: its transitions, the last one first, and one whose target is not
known yet. -/
structure OpenState where
  transitions : List Transition := []
  pending : Option (Nat × Nat) := none

/-- The transitions of a state when the pending one leads to `next`. -/
def OpenState.close (state : OpenState) (next : Nat) : List Transition :=
  match state.pending with
  | none => state.transitions
  | some (low, high) => ⟨low, high, next⟩ :: state.transitions

/-- Completes open states, each of which is the target of the one before it, and gives the number
of the first. The last one leads to `stop`. -/
def complete (stop : Nat) : List OpenState → Building Nat
  | [] => return stop
  | state :: states => do
    let transitions := state.close (← complete stop states)
    let slot := slotOf 10000 (transitions.reverse.flatMap fun t => [t.low, t.high, t.next])
    shareState slot transitions (transitionMemory * transitions.length)

/-- Adds a sequence of byte ranges. The open states that it shares with the sequence before it stay
open, and the others are completed. -/
def addSequence (stop : Nat) : List OpenState → List (Nat × Nat) → Building (List OpenState)
  | state :: states, range :: ranges => do
    if state.pending = some range then
      return state :: (← addSequence stop states ranges)
    else
      let next ← complete stop states
      let others : List OpenState := ranges.map fun range => { pending := some range }
      return { transitions := state.close next, pending := some range } :: others
  | states, _ => return states

/-- Adds the states for some sequences of byte ranges. -/
def addForwards (sequences : List (List (Nat × Nat))) : Building Unit := do
  shareNothing
  let stop ← addState 0
  let states ← sequences.foldlM (addSequence stop) [{}]
  discard <| complete stop states

/-! ## Sets of characters, read backwards -/

/-- Adds the states for a sequence of byte ranges, the first of which leads to `stop`, and a jump
to the last. -/
def addSequenceBackwards (stop : Nat) (ranges : List (Nat × Nat)) : Building Unit := do
  discard <| ranges.foldlM
    (fun next (low, high) => shareState (slotOf 1000 [next, low, high]) [⟨low, high, next⟩] 0) stop
  grow jumpMemory

/-- Adds the states for some sequences of byte ranges. -/
def addBackwards (sequences : List (List (Nat × Nat))) : Building Unit := do
  shareNothing
  addStates 1 0
  let stop ← addState 0
  sequences.forM (addSequenceBackwards stop)

/-! ## Tries -/

/-- Adds the state for the transitions to `count` children of a node, and the jump to it. -/
def addChildren (count : Nat) : Building Unit :=
  match count with
  | 0 => pure ()
  | 1 => addStates 1 jumpMemory
  | _ => addStates 1 (count * transitionMemory + jumpMemory)

/-- Adds the states for a node of a trie, given the number of children since the last literal that
ends at it. -/
def addNode : (trie : Trie) → (children : Nat) → Building Unit
  | .stop, children => addChildren children
  | .matched next, children => do
    addChildren children
    grow jumpMemory
    addNode next 0
  | .branch _ child next, children => do
    if !child.isLeaf then
      addStates 1 0
      addNode child 0
    addNode next (children + 1)

/-- Adds the states for a trie. -/
def addTrie (trie : Trie) : Building Unit := do
  addStates 2 0
  addNode trie 0

end Building

end LayeredConfig.Pattern
