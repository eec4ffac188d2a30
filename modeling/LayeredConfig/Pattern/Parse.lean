import LayeredConfig.Pattern.Size
import LayeredConfig.Pattern.Token

/-!
# Reading patterns

A pattern is read token by token into a builder, which keeps the group that is open and those
around it. A text is a pattern when all of its groups are closed in the end. `Pattern.parse` accepts
it if it is not too deeply nested or too large, either.
-/

namespace LayeredConfig.Pattern

/-- A group as far as it has been read. -/
structure Level where
  /-- The flags in force. -/
  flags : MatchFlags
  /-- Whether it captures what it matches. -/
  captures : Bool := false
  /-- The alternatives before the last bar, the last one first. -/
  alternatives : List Pattern := []
  /-- The items after the last bar, the last one first. -/
  items : List Pattern := []

/-- Items that were read last one first: a single one stands for itself, any other number for their
concatenation. -/
def ofItems : List Pattern → Pattern
  | [] => .empty
  | [p] => p
  | ps => .concat ps.reverse

namespace Level

/-- Adds an item. -/
def push (level : Level) (p : Pattern) : Level :=
  { level with items := p :: level.items }

/-- The pattern that has been read. -/
def toPattern (level : Level) : Pattern :=
  match level.alternatives with
  | [] => ofItems level.items
  | ps => .alternation (ofItems level.items :: ps).reverse

/-- Begins another alternative. -/
def bar (level : Level) : Level :=
  { level with alternatives := ofItems level.items :: level.alternatives, items := [] }

/-- Repeats the last item. A change of flags, which matches nothing by itself, cannot be repeated.
-/
def repeatLast (level : Level) (min : Nat) (max : Option Nat) (greedy : Bool) :
    Except PatternError Level :=
  match level.items with
  | [] | .empty :: _ => .error .nothingToRepeat
  | p :: items => .ok { level with items := .repetition p min max greedy :: items }

end Level

/-- A pattern as far as it has been read: the group that is open, the groups around it with the
innermost first, and the names of all groups. -/
structure Builder where
  level : Level := { flags := {} }
  outer : List Level := []
  names : List (List Char) := []

namespace Builder

/-- Reads one token. -/
def step (b : Builder) : Token → Except PatternError Builder
  | .item p => .ok { b with level := b.level.push p }
  | .repetition min max greedy =>
    (b.level.repeatLast min max greedy).map fun level => { b with level }
  | .bar => .ok { b with level := b.level.bar }
  | .openGroup flags captures name =>
    if name.any b.names.contains then .error .duplicateGroupName
    else
      .ok { level := { flags, captures }, outer := b.level :: b.outer,
            names := name.toList ++ b.names }
  | .closeGroup =>
    match b.outer with
    | [] => .error .unopenedGroup
    | level :: outer =>
      .ok { b with level := level.push (.group b.level.toPattern b.level.captures), outer }
  | .setFlags flags => .ok { b with level := { b.level.push .empty with flags } }

/-- Reads the rest of a text. Every token takes a character, so that `fuel` is the number of
characters that are left. -/
def run (table : PropertyTable) (b : Builder) :
    (fuel : Nat) → List Char → Except PatternError Builder
  | 0, _ => .ok b
  | fuel + 1, cs => do
    match ← nextToken table b.level.flags cs with
    | none => .ok b
    | some (token, rest) => run table (← b.step token) fuel rest

/-- The pattern that has been read, if no group is open. -/
def finish (b : Builder) : Except PatternError Pattern :=
  if b.outer.isEmpty then .ok b.level.toPattern else .error .unclosedGroup

end Builder

/-- What a text is read as under some flags, however large it is. -/
def readWith (table : PropertyTable) (flags : MatchFlags) (text : String) :
    Except PatternError Pattern := do
  let b ← Builder.run table { level := { flags } } (text.length + 1) text.toList
  b.finish

/-- Reads a pattern, which must not be too deeply nested or too large. -/
def parse (table : PropertyTable) (text : String) : Except PatternError Pattern := do
  let p ← readWith table {} text
  if p.nesting > maxNesting then .error .tooNested
  else if !p.normal.fits then .error .tooLarge
  else .ok p

end LayeredConfig.Pattern
