import LayeredConfig.Pattern.CharSet

/-!
# Patterns

A pattern is a regular expression with assertions about places. Which of several matches is
preferred makes no difference to whether there is one, and that is all that is ever asked. Only the
size of a pattern can depend on which of its repetitions are greedy and which groups capture.
-/

namespace LayeredConfig

namespace Pattern

/-- How a place lies to the words around it. -/
inductive WordEdge
  /-- At either end of a word. -/
  | boundary
  /-- Not at an end of a word. -/
  | inside
  /-- At the start of a word. -/
  | start
  /-- At the end of a word. -/
  | stop
  /-- Not after a word character. -/
  | startHalf
  /-- Not before a word character. -/
  | stopHalf
deriving DecidableEq, Repr

/-- A condition on a place of a text. -/
inductive Assertion
  | textStart
  | textEnd
  | lineStart
  | lineEnd
  /-- As `lineStart`, with a carriage return, a line feed, or both as line ends. -/
  | lineStartCrlf
  /-- As `lineEnd`, with the same line ends. -/
  | lineEndCrlf
  | word (unicode : Bool) (edge : WordEdge)
deriving DecidableEq, Repr

/-- A set of characters as a pattern writes it. -/
structure CharClass where
  set : CharSet
  /-- Whether it is written in terms of characters, rather than of bytes. -/
  unicode : Bool := true
  /-- How deep its brackets and operators are nested. -/
  nesting : Nat := 0
deriving DecidableEq, Repr

end Pattern

/-- A regular expression. -/
inductive Pattern
  | empty
  /-- One character of a class. -/
  | oneOf (cls : Pattern.CharClass)
  | assert (a : Pattern.Assertion)
  /-- All of the patterns, one after the other. -/
  | concat (ps : List Pattern)
  /-- Any of the patterns. -/
  | alternation (ps : List Pattern)
  /-- The pattern at least `min` times, and at most `max` times if there is a bound. A greedy
  repetition prefers more times to fewer. -/
  | repetition (p : Pattern) (min : Nat) (max : Option Nat) (greedy : Bool)
  /-- A group, which may capture what it matches. -/
  | group (p : Pattern) (captures : Bool)
deriving Repr

namespace Pattern

mutual

/-- How deep a pattern is nested. -/
def nesting : Pattern → Nat
  | .empty | .assert _ => 0
  | .oneOf cls => cls.nesting
  | .concat ps | .alternation ps => nestingOfAll ps + 1
  | .repetition p _ _ _ | .group p _ => p.nesting + 1

/-- How deep the most deeply nested of some patterns is. -/
def nestingOfAll : List Pattern → Nat
  | [] => 0
  | p :: ps => max p.nesting (nestingOfAll ps)

end

/-- The deepest nesting of a pattern that is accepted. -/
def maxNesting : Nat := 250

end Pattern

end LayeredConfig
