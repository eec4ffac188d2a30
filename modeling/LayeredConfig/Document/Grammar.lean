import LayeredConfig.Document.Item
import LayeredConfig.Text.Chars
import LayeredConfig.Text.Whitespace

/-!
# Reading the items of a document

The grammar is line-oriented:

* a line is blank, a comment that starts with `#`, or one item, after which a comment may follow
  behind white space;
* a header is a name between runs of `[` and `]`;
* a command is `@`, a name, and an argument in parentheses, which may span lines;
* an assignment is an optional mark, a name, `=` or `:=`, and a value.

A value is quoted in one of four ways, provided that nothing but a comment follows the closing
quote; otherwise it runs to the end of its line. Between triple quotes a value may span lines, and
between other ones only behind a backslash at the end of each line.

Every reader takes the characters that are left and returns those left after it.
-/

namespace LayeredConfig.Document

open Text

/-- A character of a name. -/
def isNameChar : Mode → Char → Bool
  | .config, c => c.isAlphanum || c == '_' || c == '.' || c == '-'
  | .schema, c => !isWhitespace c

/-- Drops horizontal white space. -/
def skipSpaces (cs : List Char) : List Char :=
  cs.dropWhile isSpace

/-- Drops the rest of a line, up to its line feed. -/
def skipLine (cs : List Char) : List Char :=
  cs.dropWhile (· != '\n')

/-- Drops blank lines and comments. `inComment` tells whether a comment has begun already. -/
def skipBlank : (inComment : Bool) → List Char → List Char
  | _, [] => []
  | true, c :: cs => if c = '\n' then skipBlank false cs else skipBlank true cs
  | false, c :: cs =>
    if c = '\n' ∨ isSpace c then skipBlank false cs
    else if c = '#' then skipBlank true cs
    else c :: cs

/-- Whether a line ends here. -/
def atLineEnd : List Char → Bool
  | [] => true
  | c :: _ => c == '\n'

/-- Whether the text goes on with white space. -/
def startsWithSpace (cs : List Char) : Bool :=
  cs.head?.any isSpace

/-- Whether a comment follows after any white space. -/
def startsComment (cs : List Char) : Bool :=
  (skipSpaces cs).head? == some '#'

/-- Drops what may follow an item on its line: white space, and a comment behind it. -/
def skipTail (cs : List Char) : List Char :=
  if startsWithSpace cs && startsComment cs then skipLine (skipSpaces cs) else skipSpaces cs

/-- A name: at least one of its characters. -/
def word (mode : Mode) (cs : List Char) : Option (List Char × List Char) :=
  match cs.takeWhile (isNameChar mode) with
  | [] => none
  | name => some (name, cs.dropWhile (isNameChar mode))

/-! ## Headers and commands -/

/-- What follows the name of a header: the closing brackets. A name in a schema may have swallowed
them, and without white space after it they are taken back from its end. -/
def headerEnd (mode : Mode) (opening : Nat) (name rest : List Char) : Option (Item × List Char) :=
  let closing := (skipSpaces rest).takeWhile (· == ']')
  let trimmed := dropTrailing (· == ']') name
  if closing ≠ [] then
    some (.header opening closing.length (String.ofList name),
      (skipSpaces rest).dropWhile (· == ']'))
  else if mode = .schema ∧ !startsWithSpace rest ∧ trimmed ≠ [] ∧ trimmed ≠ name then
    some (.header opening (name.length - trimmed.length) (String.ofList trimmed), skipSpaces rest)
  else none

/-- A section header. -/
def header (mode : Mode) (cs : List Char) : Option (Item × List Char) :=
  let opening := cs.takeWhile (· == '[')
  if opening = [] then none
  else
    match word mode (skipSpaces (cs.dropWhile (· == '['))) with
    | none => none
    | some (name, rest) => headerEnd mode opening.length name rest

/-- A command. Its argument ends at the first closing parenthesis and is trimmed. -/
def command : List Char → Option (Item × List Char)
  | '@' :: cs =>
    match word .config cs with
    | none => none
    | some (name, rest) =>
      match skipSpaces rest with
      | '(' :: body =>
        match body.dropWhile (· != ')') with
        | _ :: rest =>
          some (.command (String.ofList name)
            (String.ofList (trim (body.takeWhile (· != ')')))), rest)
        | [] => none
      | _ => none
  | _ => none

/-! ## Values -/

/-- The four ways to quote a value, in the order in which they are tried, and whether a value
quoted so may span lines. -/
def quotes : List (List Char × Bool) :=
  [(['"', '"', '"'], true), (['\'', '\'', '\''], true), (['"'], false), (['\''], false)]

/-- The character that a backslash and `c` stand for. -/
def escaped (c : Char) : Char :=
  if c = 'n' then '\n' else if c = 't' then '\t' else if c = 'r' then '\r' else c

/-- A quoted value after its opening quote: the text it stands for, and what follows. -/
def quotedBody (quote : List Char) (multiline : Bool) :
    List Char → Option (List Char × List Char)
  | [] => none
  | c :: cs =>
    if quote.isPrefixOf (c :: cs) then some ([], (c :: cs).drop quote.length)
    else if c = '\\' then
      match cs with
      | [] => none
      | e :: cs => (quotedBody quote multiline cs).map fun r => (escaped e :: r.1, r.2)
    else if c = '\n' ∧ !multiline then none
    else (quotedBody quote multiline cs).map fun r => (c :: r.1, r.2)

/-- Whether only white space and a comment are left on the line. -/
def lineRestIsBlank (cs : List Char) : Bool :=
  atLineEnd (skipTail cs)

/-- A value in the given quotes, unless something else follows it on its line. -/
def quoted (quote : List Char) (multiline : Bool) (cs : List Char) :
    Option (List Char × List Char) :=
  if quote.isPrefixOf cs then
    (quotedBody quote multiline (cs.drop quote.length)).filter fun r => lineRestIsBlank r.2
  else none

/-- A value without quotes: up to the end of the line, or to white space with a comment behind it.
-/
def unquoted : List Char → List Char × List Char
  | [] => ([], [])
  | c :: cs =>
    if c = '\n' ∨ (isSpace c ∧ startsComment cs) then ([], c :: cs)
    else (c :: (unquoted cs).1, (unquoted cs).2)

/-- A value after white space has been skipped. -/
def valueAfterSpaces (cs : List Char) : List Char × List Char :=
  if cs.head? = some '#' then ([], skipLine cs)
  else if atLineEnd cs then ([], cs)
  else
    match quotes.findSome? fun (quote, multiline) => quoted quote multiline cs with
    | some r => r
    | none => (dropTrailing isSpace (unquoted cs).1, (unquoted cs).2)

/-- The value of an assignment. -/
def value (cs : List Char) : List Char × List Char :=
  valueAfterSpaces (skipSpaces cs)

/-! ## Assignments -/

/-- The mark in front of a key, if there is one. -/
def marker : List Char → Option Marker × List Char
  | '^' :: cs => (some .mandatory, cs)
  | '!' :: cs => (some .final, cs)
  | '~' :: cs => (some .temporary, cs)
  | cs => (none, cs)

/-- The operator of an assignment. -/
def assignOp : List Char → Option (AssignOp × List Char)
  | ':' :: '=' :: cs => some (.immediate, cs)
  | '=' :: cs => some (.deferred, cs)
  | _ => none

/-- An assignment. In a schema, white space has to stand before the operator. -/
def assign (mode : Mode) (cs : List Char) : Option (Item × List Char) :=
  match word mode (marker cs).2 with
  | none => none
  | some (key, rest) =>
    if mode = .schema ∧ !startsWithSpace rest then none
    else
      match assignOp (skipSpaces rest) with
      | none => none
      | some (op, rest) =>
        some (.assign (marker cs).1 (String.ofList key) op (String.ofList (value rest).1),
          (value rest).2)

/-! ## Items -/

/-- One item, of the first kind that fits. -/
def item (mode : Mode) (cs : List Char) : Option (Item × List Char) :=
  (header mode cs).or ((command cs).or (assign mode cs))

/-- What comes next in a text. -/
inductive Next
  /-- Nothing but blank lines and comments. -/
  | finished
  /-- An item: the text from its start on, the item, and the text after it and its comment. -/
  | item (start : List Char) (item : Item) (rest : List Char)
  /-- Something that is no item, at the start of the given text. -/
  | malformed (place : List Char)
deriving DecidableEq, Repr

/-- The next item of a text. It has to be followed by the end of its line. -/
def nextItem (mode : Mode) (cs : List Char) : Next :=
  match skipBlank false cs with
  | [] => .finished
  | start =>
    match item mode start with
    | none => .malformed start
    | some (item, rest) =>
      if atLineEnd (skipTail rest) then .item start item (skipTail rest)
      else .malformed (skipTail rest)

end LayeredConfig.Document
