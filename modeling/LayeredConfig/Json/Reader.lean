import LayeredConfig.Json
import LayeredConfig.Text.Digits

/-!
# Reading JSON texts

`Json.read?` reads a text that is one JSON value with nothing but white space around it. It
follows the format strictly: no leading zeros, no bare control characters in strings, no trailing
commas.
-/

namespace LayeredConfig.Json

open Text

/-- Drops the white space that may stand between any two tokens. -/
def skipBlank (cs : List Char) : List Char :=
  cs.dropWhile fun c => c == ' ' || c == '\n' || c == '\r' || c == '\t'

/-- The character that a one-letter escape stands for. -/
def escapedChar? : Char → Option Char
  | '"' => some '"'
  | '\\' => some '\\'
  | '/' => some '/'
  | 'b' => some '\x08'
  | 'f' => some '\x0c'
  | 'n' => some '\n'
  | 'r' => some '\r'
  | 't' => some '\t'
  | _ => none

/-- The code points up to the closing quote, and what follows it. The two halves of an escaped
surrogate pair are still apart. -/
def stringCodes : List Char → Option (List Nat × List Char)
  | [] => none
  | '"' :: rest => some ([], rest)
  | '\\' :: 'u' :: a :: b :: c :: d :: rest =>
    if [a, b, c, d].all isHexDigit then
      (stringCodes rest).map fun r => (hexNumber [a, b, c, d] :: r.1, r.2)
    else none
  | '\\' :: e :: rest =>
    match escapedChar? e with
    | some c => (stringCodes rest).map fun r => (c.toNat :: r.1, r.2)
    | none => none
  | c :: rest =>
    if c.toNat < 0x20 || c == '\\' then none
    else (stringCodes rest).map fun r => (c.toNat :: r.1, r.2)

/-- The characters of some code points. A high surrogate joins with the low one after it; a
surrogate on its own has no character. -/
def joinSurrogates : List Nat → Option (List Char)
  | [] => some []
  | high :: low :: codes =>
    if 0xD800 ≤ high ∧ high < 0xDC00 ∧ 0xDC00 ≤ low ∧ low < 0xE000 then
      (joinSurrogates codes).map
        (Char.ofNat (0x10000 + 0x400 * (high - 0xD800) + (low - 0xDC00)) :: ·)
    else if 0xD800 ≤ high ∧ high < 0xE000 then none
    else (joinSurrogates (low :: codes)).map (Char.ofNat high :: ·)
  | [code] => if 0xD800 ≤ code ∧ code < 0xE000 then none else some [Char.ofNat code]

/-- A string, read after its opening quote. There is no text for it if a surrogate is unpaired. -/
def readString (cs : List Char) : Option (Option String × List Char) :=
  (stringCodes cs).map fun (codes, rest) => ((joinSurrogates codes).map String.ofList, rest)

/-- The members of an object with one more before them, if all of their names are texts. -/
def consMember (name : Option String) (value : Json) (members : Option (List (String × Json))) :
    Option (List (String × Json)) := do
  return (← name, value) :: (← members)

/-- At least one digit. -/
def readDigits? (cs : List Char) : Option (List Char × List Char) :=
  match cs.takeWhile isAsciiDigit with
  | [] => none
  | digits => some (digits, cs.dropWhile isAsciiDigit)

/-- The fraction of a number, if it has one. -/
def readFraction : List Char → Option (List Char × List Char)
  | '.' :: cs => (readDigits? cs).map fun (digits, rest) => ('.' :: digits, rest)
  | cs => some ([], cs)

/-- The exponent of a number, if it has one. -/
def readExponent : List Char → Option (List Char × List Char)
  | c :: cs =>
    if c = 'e' ∨ c = 'E' then
      match cs with
      | '+' :: cs => (readDigits? cs).map fun (digits, rest) => (c :: '+' :: digits, rest)
      | '-' :: cs => (readDigits? cs).map fun (digits, rest) => (c :: '-' :: digits, rest)
      | cs => (readDigits? cs).map fun (digits, rest) => (c :: digits, rest)
    else some ([], c :: cs)
  | [] => some ([], [])

/-- A number without its sign. The whole part is a zero alone, or does not start with one. -/
def readUnsigned (cs : List Char) : Option (List Char × List Char) := do
  let (whole, rest) ← readDigits? cs
  if whole.head? = some '0' ∧ whole.length > 1 then none
  let (fraction, rest) ← readFraction rest
  let (exponent, rest) ← readExponent rest
  some (whole ++ fraction ++ exponent, rest)

/-- A number, kept as it is spelled. -/
def readNumber : List Char → Option (Json × List Char)
  | '-' :: cs => (readUnsigned cs).map fun (n, rest) => (.number (String.ofList ('-' :: n)), rest)
  | cs => (readUnsigned cs).map fun (n, rest) => (.number (String.ofList n), rest)

/-- What follows a fixed word, if the text starts with it. -/
def readWord (word : String) (value : Json) (cs : List Char) : Option (Json × List Char) :=
  if word.toList.isPrefixOf cs then some (value, cs.drop word.length) else none

mutual

/-- One value, nested at most `fuel` levels deep. -/
def readValue : (fuel : Nat) → List Char → Option (Json × List Char)
  | 0, _ => none
  | fuel + 1, cs =>
    match skipBlank cs with
    | '"' :: cs => (readString cs).map fun (text, rest) => (text.elim .unpaired .string, rest)
    | '[' :: cs =>
      match skipBlank cs with
      | ']' :: cs => some (.array [], cs)
      | cs => (readItems fuel cs).map fun (items, rest) => (.array items, rest)
    | '\x7b' :: cs =>
      match skipBlank cs with
      | '\x7d' :: cs => some (.object [], cs)
      | cs =>
        (readMembers fuel cs).map fun (members, rest) => (members.elim .unpaired .object, rest)
    | 't' :: cs => readWord "true" (.bool true) ('t' :: cs)
    | 'f' :: cs => readWord "false" (.bool false) ('f' :: cs)
    | 'n' :: cs => readWord "null" .null ('n' :: cs)
    | cs => readNumber cs

/-- The items of an array from the first one on, up to its closing bracket. -/
def readItems : (fuel : Nat) → List Char → Option (List Json × List Char)
  | 0, _ => none
  | fuel + 1, cs => do
    let (item, rest) ← readValue fuel cs
    match skipBlank rest with
    | ',' :: rest => (readItems fuel rest).map fun (items, rest) => (item :: items, rest)
    | ']' :: rest => some ([item], rest)
    | _ => none

/-- The members of an object from the first one on, up to its closing brace. There is no list of
them if a surrogate is unpaired in one of their names. -/
def readMembers : (fuel : Nat) → List Char → Option (Option (List (String × Json)) × List Char)
  | 0, _ => none
  | fuel + 1, cs =>
    match skipBlank cs with
    | '"' :: cs => do
      let (name, rest) ← readString cs
      match skipBlank rest with
      | ':' :: rest => do
        let (value, rest) ← readValue fuel rest
        match skipBlank rest with
        | ',' :: rest =>
          (readMembers fuel rest).map fun (members, rest) =>
            (consMember name value members, rest)
        | '\x7d' :: rest => some (consMember name value (some []), rest)
        | _ => none
      | _ => none
    | _ => none

end

/-- Reads a text that holds one JSON value. Every level of nesting takes a character, so the
length of the text bounds the depth. -/
def read? (text : String) : Option Json :=
  match readValue (2 * text.length + 1) text.toList with
  | some (value, rest) => if (skipBlank rest).isEmpty then some value else none
  | none => none

end LayeredConfig.Json
