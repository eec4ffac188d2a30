import LayeredConfig.Document.Read

/-!
# Reading by byte offsets

The readers of the grammar hand on the characters that are left. Here the same documents are read by
a cursor, which holds nothing but the byte at which it stands. It moves by the lengths of characters
and of names and to places that a search has found, and it sees the text by cutting it at its byte.

The cursor can stand on the boundaries of characters only. Moving to another byte has no result, nor
has cutting a text there, and a loop that goes round more often than the text has characters has
none either. So a reading that has a result has stayed in the text and on boundaries all the time.
-/

namespace LayeredConfig

namespace Text

/-- Whether a byte of a text is not inside a character and not past the end. -/
def IsBoundary (cs : List Char) (offset : Nat) : Prop :=
  (splitAtByte? cs offset).isSome = true

instance (cs : List Char) (offset : Nat) : Decidable (IsBoundary cs offset) :=
  inferInstanceAs (Decidable (_ = true))

end Text

namespace Document

open Text

/-- A byte at which a text can be cut. -/
structure Boundary (text : List Char) where
  offset : Nat
  isBoundary : IsBoundary text offset
deriving DecidableEq, Repr

namespace Boundary

/-- The first byte of a text. -/
def first (text : List Char) : Boundary text :=
  ⟨0, by rw [IsBoundary, splitAtByte?]; rfl⟩

/-- The characters from a byte on. -/
def rest {text : List Char} (b : Boundary text) : List Char :=
  ((splitAtByte? text b.offset).get b.isBoundary).2

end Boundary

/-- An item, and the byte at which the cursor stands after it. -/
structure Extent (text : List Char) where
  placed : PlacedItem
  stop : Boundary text
deriving DecidableEq, Repr

namespace Cursor

/-- A part of a reading. Its state is the byte at which the cursor stands. -/
abbrev Scan (text : List Char) := StateT (Boundary text) Option

/-- A part of a reading that may find nothing. That is a result, too. -/
abbrev Search (text : List Char) := OptionT (Scan text)

/-- No result: the text cannot be cut at a byte, or a loop does not end in time. -/
def stuck (text : List Char) {α : Type} : Scan text α :=
  StateT.lift none

/-! ## The cursor -/

/-- Moves the cursor to a byte. -/
def moveTo (text : List Char) (offset : Nat) : Scan text Unit :=
  if h : IsBoundary text offset then set (Boundary.mk offset h) else stuck text

/-- Moves the cursor forward by some bytes. -/
def moveBy (text : List Char) (count : Nat) : Scan text Unit := do
  moveTo text ((← get).offset + count)

/-- Moves the cursor forward by some bytes, to the end of the text at most. -/
def advance (text : List Char) (count : Nat) : Scan text Unit := do
  moveTo text (min ((← get).offset + count) (byteLength text))

/-- The characters from the cursor on. -/
def rest (text : List Char) : Scan text (List Char) := do
  return (← get).rest

/-- Cuts some characters at a byte. -/
def cut (text cs : List Char) (offset : Nat) : Scan text (List Char × List Char) :=
  StateT.lift (splitAtByte? cs offset)

/-- The characters between two bytes. -/
def slice (text : List Char) (start stop : Nat) : Scan text (List Char) :=
  if start ≤ stop then do
    let parts ← cut text text start
    let parts ← cut text parts.2 (stop - start)
    return parts.1
  else stuck text

/-- Whether the text goes on with a character. -/
def startsWith (text : List Char) (c : Char) : Scan text Bool := do
  return (← rest text).head? == some c

/-- Whether a line ends at the cursor. -/
def lineEnds (text : List Char) : Scan text Bool := do
  return atLineEnd (← rest text)

/-- Takes the next character, if there is one. -/
def next (text : List Char) : Scan text (Option Char) := do
  match (← rest text).head? with
  | none => return none
  | some c =>
    moveBy text c.utf8Size
    return some c

/-- Takes some characters, if the text goes on with them, and tells whether it does. -/
def eat (text expected : List Char) : Scan text Bool := do
  if expected.isPrefixOf (← rest text) then
    moveBy text (byteLength expected)
    return true
  else return false

/-- Takes a step up to so many times, until it has a result. -/
def iterate {text : List Char} {σ α : Type} (step : σ → Scan text (σ ⊕ α)) :
    (rounds : Nat) → σ → Scan text α
  | 0, _ => stuck text
  | rounds + 1, s => do
    match ← step s with
    | .inl s => iterate step rounds s
    | .inr a => return a

/-- Takes a step until it has a result, at most once more than the text has characters. -/
def loop (text : List Char) {σ α : Type} (step : σ → Scan text (σ ⊕ α)) (s : σ) : Scan text α :=
  iterate step (text.length + 1) s

/-- Skips a character, or tells that there is nothing more to skip. -/
def skipNext (text : List Char) (p : Char → Bool) : Scan text (Unit ⊕ Unit) := do
  match (← rest text).head? with
  | none => return .inr ()
  | some c =>
    if p c then
      moveBy text c.utf8Size
      return .inl ()
    else return .inr ()

/-- Skips characters one by one. -/
def skipWhile (text : List Char) (p : Char → Bool) : Scan text Unit :=
  loop text (fun _ => skipNext text p) ()

/-- Takes characters one by one. -/
def eatWhile (text : List Char) (p : Char → Bool) : Scan text (List Char) := do
  let start ← get
  skipWhile text p
  slice text start.offset (← get).offset

/-- Skips white space on a line, and tells whether there is any. -/
def eatSpaces (text : List Char) : Scan text Bool := do
  return (← eatWhile text isSpace) != []

/-- Skips the rest of a line, up to its line feed. -/
def eatLine (text : List Char) : Scan text Unit := do
  let _ ← eatWhile text (· != '\n')

/-- Looks ahead: the cursor comes back. -/
def ahead {text : List Char} (scan : Scan text α) : Scan text α := do
  let start ← get
  let a ← scan
  set start
  return a

/-- Tries something: if nothing is found, the cursor comes back. -/
def attempt {text : List Char} (search : Search text α) : Search text α := OptionT.mk do
  let start ← get
  match ← search.run with
  | some a => return some a
  | none =>
    set start
    return none

/-! ## Headers and commands -/

/-- A name. The cursor moves to the end of the longest run of characters of a name at once. -/
def name (mode : Mode) (text : List Char) : Search text (List Char) := OptionT.mk do
  let ahead ← rest text
  let stop := byteLength (ahead.takeWhile (isNameChar mode))
  if stop = 0 then return none
  else
    moveBy text stop
    let parts ← cut text ahead stop
    return some parts.1

/-- What follows the name of a header. -/
def headerEnd (mode : Mode) (text : List Char) (opening : Nat) (key : List Char) :
    Search text Item := do
  let spaced ← eatSpaces text
  let closing ← eatWhile text (· == ']')
  if closing ≠ [] then
    return .header opening (byteLength closing) (String.ofList key)
  else
    let trimmed := dropTrailing (· == ']') key
    guard (mode = .schema ∧ !spaced ∧ trimmed ≠ [] ∧ byteLength trimmed < byteLength key)
    return .header opening (byteLength key - byteLength trimmed) (String.ofList trimmed)

/-- A section header. -/
def header (mode : Mode) (text : List Char) : Search text Item := do
  let opening ← eatWhile text (· == '[')
  guard (opening ≠ [])
  let _ ← eatSpaces text
  let key ← name mode text
  headerEnd mode text (byteLength opening) key

/-- The first byte of a character that occurs in a text. -/
def find? (cs : List Char) (c : Char) : Option Nat :=
  if c ∈ cs then some (byteLength (cs.takeWhile (· != c))) else none

/-- A command. Its argument is searched for its end. -/
def command (text : List Char) : Search text Item := do
  guard (← eat text ['@'])
  let key ← name .config text
  let _ ← eatSpaces text
  guard (← eat text ['('])
  let body ← rest text
  let stop ← OptionT.mk (pure (find? body ')'))
  advance text (stop + 1)
  let parts ← cut text body stop
  return .command (String.ofList key) (String.ofList (trim parts.1))

/-! ## Values -/

/-- Takes a character of a quoted value, after some others, or the closing quote. -/
def quotedNext (text quote : List Char) (multiline : Bool) (read : List Char) :
    Scan text (List Char ⊕ Option (List Char)) := do
  if ← eat text quote then return .inr (some read)
  else
    match ← next text with
    | none => return .inr none
    | some c =>
      if c = '\\' then
        match ← next text with
        | none => return .inr none
        | some e => return .inl (read ++ [escaped e])
      else if c = '\n' ∧ !multiline then return .inr none
      else return .inl (read ++ [c])

/-- A quoted value after its opening quote. -/
def quotedBody (text quote : List Char) (multiline : Bool) : Search text (List Char) :=
  OptionT.mk (loop text (quotedNext text quote multiline) [])

/-- A value in the given quotes. -/
def quoted (text quote : List Char) (multiline : Bool) : Search text (List Char) := do
  guard (← eat text quote)
  quotedBody text quote multiline

/-- Whether only white space and a comment are left on the line. -/
def lineRestIsBlank (text : List Char) : Scan text Bool := ahead do
  let spaced ← eatSpaces text
  if ← lineEnds text then return true
  else return spaced && (← startsWith text '#')

/-- A value in the first of some quotes that fit and that only a comment follows. -/
def firstQuoted (text : List Char) : List (List Char × Bool) → Search text (List Char)
  | [] => failure
  | (quote, multiline) :: others =>
    (attempt do
      let value ← quoted text quote multiline
      guard (← lineRestIsBlank text)
      return value) <|> firstQuoted text others

/-- Whether a comment follows after any white space. -/
def commentFollows (text : List Char) : Scan text Bool := ahead do
  let _ ← eatSpaces text
  startsWith text '#'

/-- Skips a character of a value without quotes, or tells that the value ends. -/
def unquotedNext (text : List Char) : Scan text (Unit ⊕ Unit) := do
  match (← rest text).head? with
  | none => return .inr ()
  | some c =>
    if c = '\n' then return .inr ()
    else
      if isSpace c && (← commentFollows text) then return .inr ()
      else
        moveBy text c.utf8Size
        return .inl ()

/-- A value without quotes. -/
def unquoted (text : List Char) : Scan text (List Char) := do
  let start ← get
  loop text (fun _ => unquotedNext text) ()
  let run ← slice text start.offset (← get).offset
  return dropTrailing isSpace run

/-- The value of an assignment. -/
def value (text : List Char) : Scan text (List Char) := do
  let _ ← eatSpaces text
  if ← startsWith text '#' then
    eatLine text
    return []
  else if ← lineEnds text then return []
  else
    match ← (firstQuoted text quotes).run with
    | some value => return value
    | none => unquoted text

/-! ## Assignments -/

/-- The mark in front of a key, if there is one. -/
def marker (text : List Char) : Scan text (Option Marker) := do
  if ← eat text ['^'] then return some .mandatory
  else if ← eat text ['!'] then return some .final
  else if ← eat text ['~'] then return some .temporary
  else return none

/-- The operator of an assignment. -/
def assignOp (text : List Char) : Search text AssignOp := do
  if ← eat text [':', '='] then return .immediate
  else if ← eat text ['='] then return .deferred
  else failure

/-- An assignment. -/
def assign (mode : Mode) (text : List Char) : Search text Item := do
  let mark ← OptionT.lift (marker text)
  let key ← name mode text
  let spaced ← eatSpaces text
  guard ¬(mode = .schema ∧ !spaced)
  let op ← assignOp text
  let raw ← value text
  return .assign mark (String.ofList key) op (String.ofList raw)

/-! ## Documents -/

/-- One item, of the first kind that fits. -/
def item (mode : Mode) (text : List Char) : Search text Item :=
  attempt (header mode text) <|> (attempt (command text) <|> attempt (assign mode text))

/-- Skips what may follow an item on its line. -/
def skipTail (text : List Char) : Scan text Unit := do
  let spaced ← eatSpaces text
  if spaced && (← startsWith text '#') then eatLine text

/-- An item with nothing behind it on its line, or the byte at which something else stands. -/
def itemOnLine (mode : Mode) (text : List Char) : Scan text (Except Nat (Option PlacedItem)) := do
  let start ← get
  match ← (item mode text).run with
  | none => return .error start.offset
  | some item =>
    skipTail text
    if ← lineEnds text then return .ok (some ⟨start.offset, item⟩)
    else return .error (← get).offset

/-- Skips the rest of a blank line or of a comment, or tells what is there instead. -/
def lineNext (mode : Mode) (text : List Char) :
    Scan text (Unit ⊕ Except Nat (Option PlacedItem)) := do
  let _ ← eatSpaces text
  match (← rest text).head? with
  | none => return .inr (.ok none)
  | some c =>
    if c = '\n' then
      moveBy text c.utf8Size
      return .inl ()
    else if c = '#' then
      eatLine text
      return .inl ()
    else
      return .inr (← itemOnLine mode text)

/-- The next item of a text, if there is one, or the byte at which something else stands. Blank
lines and comments are skipped. -/
def nextItem (mode : Mode) (text : List Char) : Scan text (Except Nat (Option PlacedItem)) :=
  loop text (fun _ => lineNext mode text) ()

/-- Reads an item, after some others, or tells that there is none, and where something else stands
instead. -/
def itemNext (mode : Mode) (text : List Char) (read : List (Extent text)) :
    Scan text (List (Extent text) ⊕ List (Extent text) × Option Nat) := do
  match ← nextItem mode text with
  | .error fault => return .inr (read, some fault)
  | .ok none => return .inr (read, none)
  | .ok (some placed) => return .inl (read ++ [⟨placed, ← get⟩])

/-- All items of a text, each with the byte at which it ends, and the byte at which something else
stands, if there is such a place. -/
def readItems (mode : Mode) (text : List Char) : Scan text (List (Extent text) × Option Nat) :=
  loop text (itemNext mode text) []

end Cursor

end Document

end LayeredConfig
