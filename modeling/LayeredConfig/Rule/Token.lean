import LayeredConfig.Rule.Error
import LayeredConfig.Text.Chars
import LayeredConfig.Text.Digits
import LayeredConfig.Text.Numeric
import LayeredConfig.Text.Whitespace

/-!
# The tokens of a rule

The text of a rule falls into strings, integers, names, comparison operators, brackets and commas,
with white space between them. Every token keeps the byte at which it starts.
-/

namespace LayeredConfig

/-- A comparison. -/
inductive CompareOp
  | eq
  | ne
  | lt
  | le
  | gt
  | ge
  | isIn
  | notIn
deriving DecidableEq, Repr

/-- A comparison as it is written. -/
def CompareOp.render : CompareOp → String
  | .eq => "=="
  | .ne => "!="
  | .lt => "<"
  | .le => "<="
  | .gt => ">"
  | .ge => ">="
  | .isIn => "in"
  | .notIn => "not in"

/-- A token of a rule. -/
inductive RuleToken
  | str (value : String)
  | int (value : Nat)
  | name (name : String)
  | compare (op : CompareOp)
  | openParen
  | closeParen
  | openBracket
  | closeBracket
  | comma
deriving DecidableEq, Repr

namespace RuleToken

open Text

/-- A token and the byte at which it starts. -/
abbrev Placed := RuleToken × Nat

/-- A character that can start a name. -/
def isNameStart (c : Char) : Bool :=
  isAlphabetic c || c == '_'

/-- A character of a name. -/
def isNameChar (c : Char) : Bool :=
  isAlphanumeric c || c == '_'

/-- What a backslash and `c` stand for in a string. Unknown escapes keep their backslash, and in a
raw string all of them do. -/
def escaped (raw : Bool) (c : Char) : List Char :=
  if raw then ['\\', c]
  else match c with
    | 'n' => ['\n']
    | 't' => ['\t']
    | 'r' => ['\r']
    | '\\' | '\'' | '"' => [c]
    | c => ['\\', c]

/-- A string after its opening quote, if it is closed, and what follows it. -/
def stringBody? (quote : Char) (raw : Bool) : List Char → Option (List Char × List Char)
  | [] => none
  | c :: cs =>
    if c = quote then some ([], cs)
    else if c = '\\' then
      match cs with
      | [] => none
      | e :: cs => (stringBody? quote raw cs).map fun r => (escaped raw e ++ r.1, r.2)
    else (stringBody? quote raw cs).map fun r => (c :: r.1, r.2)

/-- A string token after its opening quote. -/
def readString (quote : Char) (raw : Bool) (cs : List Char) :
    Except RuleSyntax (RuleToken × List Char) :=
  match stringBody? quote raw cs with
  | some (text, rest) => .ok (.str (String.ofList text), rest)
  | none => .error .unterminatedString

/-- The operator that a character makes, alone or followed by an equals sign. -/
def compareOp? : (c : Char) → (followed : Bool) → Option CompareOp
  | '=', true => some .eq
  | '!', true => some .ne
  | '<', false => some .lt
  | '<', true => some .le
  | '>', false => some .gt
  | '>', true => some .ge
  | _, _ => none

/-- An operator that starts with `c`. -/
def readOp (c : Char) (cs : List Char) : Except RuleSyntax (RuleToken × List Char) :=
  let followed := cs.head? == some '='
  match compareOp? c followed with
  | some op => .ok (.compare op, if followed then cs.tail else cs)
  | none => .error (.unexpectedChar c)

/-- An integer. It has to fit into a signed word of 64 bits. -/
def readInt (cs : List Char) : Except RuleSyntax (RuleToken × List Char) :=
  let n := decimalNumber (cs.takeWhile isAsciiDigit)
  if n < 0x8000000000000000 then .ok (.int n, cs.dropWhile isAsciiDigit)
  else .error .integerTooLarge

/-- A name. The names `r` and `R` make a string raw that follows at once. -/
def readName (cs : List Char) : Except RuleSyntax (RuleToken × List Char) :=
  let name := cs.takeWhile isNameChar
  let rest := cs.dropWhile isNameChar
  let plain := .ok (.name (String.ofList name), rest)
  if name = ['r'] ∨ name = ['R'] then
    match rest with
    | '\'' :: rest => readString '\'' true rest
    | '"' :: rest => readString '"' true rest
    | _ => plain
  else plain

/-- The token that a text starts with, which is not white space. -/
def readToken (c : Char) (cs : List Char) : Except RuleSyntax (RuleToken × List Char) :=
  match c with
  | '(' => .ok (.openParen, cs)
  | ')' => .ok (.closeParen, cs)
  | '[' => .ok (.openBracket, cs)
  | ']' => .ok (.closeBracket, cs)
  | ',' => .ok (.comma, cs)
  | '=' | '!' | '<' | '>' => readOp c cs
  | '\'' | '"' => readString c false cs
  | c =>
    if isAsciiDigit c then readInt (c :: cs)
    else if isNameStart c then readName (c :: cs)
    else .error (.unexpectedChar c)

/-- The tokens of what is left of a text of `size` bytes. Every token takes a character, so that
`fuel` is the number of characters that are left. -/
def readTokens (size : Nat) : (fuel : Nat) → List Char → Except RuleFault (List Placed)
  | 0, _ => .ok []
  | fuel + 1, cs =>
    match cs.dropWhile isWhitespace with
    | [] => .ok []
    | c :: cs =>
      let offset := size - byteLength (c :: cs)
      match readToken c cs with
      | .error fault => .error (.malformed offset fault)
      | .ok (token, rest) => (readTokens size fuel rest).map ((token, offset) :: ·)

/-- The tokens of a rule. -/
def ofText (source : String) : Except RuleFault (List Placed) :=
  readTokens (byteLength source.toList) (source.length + 1) source.toList

end RuleToken

end LayeredConfig
