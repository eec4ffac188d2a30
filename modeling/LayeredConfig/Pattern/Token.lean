import LayeredConfig.Pattern.Basic
import LayeredConfig.Pattern.Error
import LayeredConfig.Text.Digits
import LayeredConfig.Text.Numeric

/-!
# The tokens of a pattern

The text of a pattern falls into tokens: items that match by themselves, repetitions, and the bars
and parentheses that give it its structure. What a token stands for depends on the flags that are
in force where it is written.
-/

namespace LayeredConfig.Pattern

open Text

/-- The flags that a pattern can switch on and off. -/
structure MatchFlags where
  /-- `i`: letters match in either case. -/
  anyCase : Bool := false
  /-- `m`: `^` and `$` match at line ends. -/
  multiline : Bool := false
  /-- `s`: a dot matches a line feed too. -/
  dotAll : Bool := false
  /-- `U`: greedy and lazy repetitions swap. -/
  swapGreed : Bool := false
  /-- `u`: classes know all of Unicode. -/
  unicode : Bool := true
  /-- `R`: a carriage return is a line end too. -/
  crlf : Bool := false
  /-- `x`: white space and comments are skipped. -/
  verbose : Bool := false
deriving DecidableEq, Repr

/-- A token of a pattern. -/
inductive Token
  /-- Something that matches by itself. -/
  | item (p : Pattern)
  | repetition (min : Nat) (max : Option Nat) (greedy : Bool)
  | bar
  /-- The start of a group, with the flags inside it, whether it captures what it matches, and its
  name, if it has one. -/
  | openGroup (flags : MatchFlags) (captures : Bool) (name : Option (List Char))
  | closeGroup
  /-- New flags for the rest of the group. -/
  | setFlags (flags : MatchFlags)
deriving Repr

/-- A reader takes the characters that are left and gives those left after it. -/
abbrev Reader (α : Type) := List Char → Except PatternError (α × List Char)

/-- Drops white space and comments, which only count as such when the pattern is verbose. A
comment runs from `#` to the end of its line. -/
def skipVerbose (verbose : Bool) (cs : List Char) : List Char :=
  if verbose then go false cs else cs
where
  /-- Drops white space and comments, from within a comment or not. -/
  go : (inComment : Bool) → List Char → List Char
    | _, [] => []
    | true, c :: cs => go (c != '\n') cs
    | false, c :: cs =>
      if isWhitespace c then go false cs else if c = '#' then go true cs else c :: cs

/-- Takes characters that satisfy `p`, at most `n` of them, with blanks after each. -/
def takeSpaced (verbose : Bool) (p : Char → Bool) :
    (n : Nat) → List Char → List Char × List Char
  | n + 1, c :: cs =>
    if p c then
      let r := takeSpaced verbose p n (skipVerbose verbose cs)
      (c :: r.1, r.2)
    else ([], c :: cs)
  | _, cs => ([], cs)

/-- The character with the given code point. -/
def charOfCode (code : Nat) : Except PatternError Char :=
  if code.isValidChar then .ok (Char.ofNat code)
  else .error .badEscape

/-! ## Escapes -/

/-- One character of a pattern after escapes are understood. -/
inductive Primitive
  | literal (c : Char)
  /-- A literal given as a single byte of two hexadecimal digits. -/
  | byte (c : Char)
  | oneOf (set : CharSet)
  | assertion (a : Assertion)
deriving DecidableEq, Repr

/-- A character that may be escaped without changing its meaning: ASCII, but no letter and no
digit. -/
def isEscapable (c : Char) : Bool :=
  c.toNat < 0x80 && !c.isAlphanum && c != '<' && c != '>'

/-- The class that a one-letter escape stands for. Its upper-case letter is the complement. -/
def letterClass (unicode : Bool) (letter : Char) : CharSet :=
  let positive : CharSet := match unicode, letter.toLower with
    | true, 'd' => .digit
    | true, 's' => .space
    | true, _ => .word
    | false, 'd' => .range '0' '9'
    | false, 's' => .ofRanges [('\t', '\r'), (' ', ' ')]
    | false, _ => .ofRanges [('0', '9'), ('A', 'Z'), ('_', '_'), ('a', 'z')]
  if letter.isUpper then .complement positive else positive

/-- The number of digits of an escape without braces. -/
def hexDigitCount : Char → Nat
  | 'x' => 2
  | 'u' => 4
  | _ => 8

/-- A character given by its code point, after the letter `kind` of the escape. -/
def readHex (verbose : Bool) (kind : Char) : Reader Primitive := fun cs =>
  match skipVerbose verbose cs with
  | '\x7b' :: cs =>
    let cs := skipVerbose verbose cs
    let (digits, rest) := takeSpaced verbose isHexDigit cs.length cs
    match rest with
    | '\x7d' :: rest =>
      if digits.isEmpty then .error .badEscape
      else do
        let c ← charOfCode (hexNumber digits)
        .ok (.literal c, rest)
    | _ => .error .badEscape
  | cs =>
    let count := hexDigitCount kind
    let (digits, rest) := takeSpaced verbose isHexDigit count cs
    if digits.length < count then .error .badEscape
    else do
      let c ← charOfCode (hexNumber digits)
      .ok (if kind = 'x' then .byte c else .literal c, rest)

/-- The word edge with the given name. -/
def wordEdge? : String → Option WordEdge
  | "start" => some .start
  | "end" => some .stop
  | "start-half" => some .startHalf
  | "end-half" => some .stopHalf
  | _ => none

/-- What `\b` stands for: a name in braces may follow. Braces that do not start like a name are
left for a repetition. -/
def readWordEdge (flags : MatchFlags) : Reader Primitive := fun cs =>
  let plain : Primitive := .assertion (.word flags.unicode .boundary)
  let isNameChar (c : Char) : Bool := c.isAlpha || c == '-'
  match cs with
  | '\x7b' :: rest =>
    match skipVerbose flags.verbose rest with
    | [] => .error .unexpectedEnd
    | c :: rest =>
      if isNameChar c then
        let (name, rest) := takeSpaced flags.verbose isNameChar (c :: rest).length (c :: rest)
        match wordEdge? (String.ofList name), rest with
        | some edge, '\x7d' :: rest => .ok (.assertion (.word flags.unicode edge), rest)
        | _, _ => .error .badEscape
      else .ok (plain, cs)
  | _ => .ok (plain, cs)

/-- The sets that the names of properties stand for, such as `L` or `Script=Greek`: with letters in
either case or not, and negated or not. Which properties there are depends on the Unicode data that
an engine is built with. -/
abbrev PropertyTable := (name : String) → (anyCase negated : Bool) → Option CharSet

/-- A class named by a property, after the letter `p` or `P`. -/
def readProperty (table : PropertyTable) (flags : MatchFlags) (letter : Char) :
    Reader Primitive := fun cs => do
  let (name, rest) ← match skipVerbose flags.verbose cs with
    | '\x7b' :: cs =>
      let cs := skipVerbose flags.verbose cs
      match takeSpaced flags.verbose (· != '\x7d') cs.length cs with
      | (name, _ :: rest) => .ok (name, rest)
      | (_, []) => .error .unexpectedEnd
    | c :: cs => .ok ([c], cs)
    | [] => .error .unexpectedEnd
  match flags.unicode, table (String.ofList name) flags.anyCase (letter == 'P') with
  | true, some set => .ok (.oneOf set, rest)
  | _, _ => .error .unknownProperty

/-- What an escape stands for, after its backslash. -/
def readEscape (table : PropertyTable) (flags : MatchFlags) : Reader Primitive
  | [] => .error .unexpectedEnd
  | c :: cs =>
    if c.isDigit then .error .backreference
    else if isEscapable c then .ok (.literal c, cs)
    else match c with
      | 'x' | 'u' | 'U' => readHex flags.verbose c cs
      | 'p' | 'P' => readProperty table flags c cs
      | 'd' | 'D' | 's' | 'S' | 'w' | 'W' => .ok (.oneOf (letterClass flags.unicode c), cs)
      | 'a' => .ok (.literal '\x07', cs)
      | 'f' => .ok (.literal '\x0c', cs)
      | 't' => .ok (.literal '\t', cs)
      | 'n' => .ok (.literal '\n', cs)
      | 'r' => .ok (.literal '\r', cs)
      | 'v' => .ok (.literal '\x0b', cs)
      | 'A' => .ok (.assertion .textStart, cs)
      | 'z' => .ok (.assertion .textEnd, cs)
      | 'b' => readWordEdge flags cs
      | 'B' => .ok (.assertion (.word flags.unicode .inside), cs)
      | '<' => .ok (.assertion (.word flags.unicode .start), cs)
      | '>' => .ok (.assertion (.word flags.unicode .stop), cs)
      | _ => .error .badEscape

/-! ## Sets under flags -/

/-- A set with its letters in either case, when the flags say so. -/
def applyCase (flags : MatchFlags) (set : CharSet) : CharSet :=
  if flags.anyCase then (if flags.unicode then .anyCase set else .anyCaseAscii set) else set

/-- A set that is written in terms of bytes has to stay within ASCII. -/
def checkSet (flags : MatchFlags) (set : CharSet) : Except PatternError CharSet :=
  if flags.unicode || set.isAscii then .ok set else .error .notUnicode

/-- A set as the flags and a negation change it. -/
def finishSet (flags : MatchFlags) (negated : Bool) (set : CharSet) :
    Except PatternError CharSet :=
  let set := applyCase flags set
  checkSet flags (if negated then .complement set else set)

/-- The pattern that matches a character of a set. -/
def setPattern (flags : MatchFlags) (set : CharSet) : Pattern :=
  .oneOf { set, unicode := flags.unicode }

/-- The pattern that matches a literal character. -/
def literalPattern (flags : MatchFlags) (c : Char) : Pattern :=
  setPattern flags (applyCase flags (.single c))

/-- The pattern that a primitive stands for outside of classes. -/
def Primitive.toPattern (flags : MatchFlags) : Primitive → Except PatternError Pattern
  | .literal c =>
    if flags.unicode || !flags.anyCase || c.toNat < 0x80 then .ok (literalPattern flags c)
    else .error .notUnicode
  | .byte c =>
    if flags.unicode || c.toNat < 0x80 then .ok (literalPattern flags c) else .error .notUnicode
  | .oneOf set => (checkSet flags set).map (setPattern flags)
  | .assertion a => .ok (.assert a)

/-! ## Classes -/

/-- The operators between the parts of a class. -/
inductive ClassOp
  | intersection
  | difference
  | symmetricDifference
deriving DecidableEq, Repr

/-- What an operator makes of two sets. -/
def ClassOp.apply : ClassOp → CharSet → CharSet → CharSet
  | .intersection => .intersection
  | .difference => .difference
  | .symmetricDifference => .symmetricDifference

/-- A part of a class, and how deep brackets and operators are nested in it. -/
structure ClassPart where
  set : CharSet
  nesting : Nat := 0
deriving DecidableEq, Repr

/-- The part that some items make up. An only item stands for itself. -/
def ClassPart.ofItems : List ClassPart → ClassPart
  | [] => { set := .empty }
  | [item] => item
  | items =>
    { set := items.foldr (fun item all => all.union item.set) .empty
      nesting := items.foldr (fun item deepest => max item.nesting deepest) 0 + 1 }

/-- A class that is open: the operator that waits for its right side together with its left side,
and the items after it, the last one first. -/
structure OpenClass where
  negated : Bool
  waiting : Option (ClassOp × ClassPart) := none
  items : List ClassPart := []
deriving DecidableEq, Repr

namespace OpenClass

/-- Adds an item. -/
def add (cls : OpenClass) (item : ClassPart) : OpenClass :=
  { cls with items := item :: cls.items }

/-- Adds a single character. -/
def addChar (cls : OpenClass) (c : Char) : OpenClass :=
  cls.add { set := .single c }

/-- What has been read so far. -/
def current (flags : MatchFlags) (cls : OpenClass) : ClassPart :=
  let right := ClassPart.ofItems cls.items
  match cls.waiting with
  | none => right
  | some (op, left) =>
    { set := op.apply (applyCase flags left.set) (applyCase flags right.set)
      nesting := max left.nesting right.nesting + 1 }

/-- Reads an operator: all before it becomes its left side. -/
def operator (flags : MatchFlags) (cls : OpenClass) (op : ClassOp) : OpenClass :=
  { cls with waiting := some (op, cls.current flags), items := [] }

/-- The whole class. -/
def close (flags : MatchFlags) (cls : OpenClass) : Except PatternError ClassPart := do
  let part := cls.current flags
  let set ← finishSet flags cls.negated part.set
  .ok { set, nesting := part.nesting + 1 }

end OpenClass

/-- Literal hyphens at the start of a class. -/
def readHyphens (verbose : Bool) : (n : Nat) → (cls : OpenClass) → List Char → OpenClass × List Char
  | n + 1, cls, '-' :: cs => readHyphens verbose n (cls.addChar '-') (skipVerbose verbose cs)
  | _, cls, cs => (cls, cs)

/-- The start of a class, after its bracket: a negation, and the characters that are literal
because they come first. -/
def openClass (flags : MatchFlags) : Reader OpenClass := fun cs =>
  let skip := skipVerbose flags.verbose
  let (negated, cs) := match skip cs with
    | '^' :: cs => (true, skip cs)
    | cs => (false, cs)
  let (cls, rest) := readHyphens flags.verbose cs.length { negated } cs
  let (cls, rest) := match rest with
    | ']' :: after =>
      if rest.length = cs.length then (cls.addChar ']', skip after) else (cls, rest)
    | _ => (cls, rest)
  if rest.isEmpty then .error .unclosedClass else .ok (cls, rest)

/-- A class with a name between `[:` and `:]`, after its bracket, if there is one. -/
def asciiClass? (cs : List Char) : Option (Bool × CharSet × List Char) :=
  match cs with
  | ':' :: cs =>
    let (negated, cs) := match cs with
      | '^' :: cs => (true, cs)
      | cs => (false, cs)
    match cs.dropWhile (· != ':') with
    | ':' :: ']' :: rest =>
      (CharSet.asciiClass? (String.ofList (cs.takeWhile (· != ':')))).map (negated, ·, rest)
    | _ => none
  | _ => none

/-- One character of a class, or an escape in it. -/
def readClassPrimitive (table : PropertyTable) (flags : MatchFlags) : Reader Primitive
  | [] => .error .unclosedClass
  | '\\' :: cs => readEscape table flags cs
  | c :: cs => .ok (.literal c, cs)

/-- The character that a primitive is as an end of a range. -/
def Primitive.toChar (flags : MatchFlags) : Primitive → Except PatternError Char
  | .literal c | .byte c =>
    if flags.unicode || c.toNat < 0x80 then .ok c else .error .notUnicode
  | _ => .error .badClassRange

/-- The set that a primitive stands for in a class. -/
def Primitive.toSet (flags : MatchFlags) : Primitive → Except PatternError CharSet
  | .oneOf set => checkSet flags set
  | .assertion _ => .error .badClassItem
  | p => (p.toChar flags).map .single

/-- An item of a class: a set, a character, or a range of characters. -/
def readClassItem (table : PropertyTable) (flags : MatchFlags) : Reader CharSet := fun cs => do
  let skip := skipVerbose flags.verbose
  let (first, cs) ← readClassPrimitive table flags cs
  match skip cs with
  | [] => .error .unclosedClass
  | '-' :: after =>
    match skip after with
    | [] => .error .unclosedClass
    | c :: rest =>
      if c = ']' ∨ c = '-' then do
        let set ← first.toSet flags
        .ok (set, '-' :: after)
      else do
        let (last, rest) ← readClassPrimitive table flags (c :: rest)
        let low ← first.toChar flags
        let high ← last.toChar flags
        if high < low then .error .badClassRange
        .ok (.range low high, rest)
  | cs => do
    let set ← first.toSet flags
    .ok (set, cs)

/-- The rest of a class, inside the classes of `outer`. Every step takes a character, so that
`fuel` is the number of characters that are left. -/
def readClass (table : PropertyTable) (flags : MatchFlags) :
    (fuel : Nat) → (outer : List OpenClass) → (cls : OpenClass) → Reader ClassPart
  | 0, _, _, _ => .error .unclosedClass
  | fuel + 1, outer, cls, cs =>
    match skipVerbose flags.verbose cs with
    | [] => .error .unclosedClass
    | '[' :: cs =>
      match asciiClass? cs with
      | some (negated, set, rest) => do
        let set ← finishSet flags negated set
        readClass table flags fuel outer (cls.add { set }) rest
      | none => do
        let (inner, rest) ← openClass flags cs
        readClass table flags fuel (cls :: outer) inner rest
    | ']' :: cs => do
      let part ← cls.close flags
      match outer with
      | [] => .ok (part, cs)
      | parent :: outer => readClass table flags fuel outer (parent.add part) cs
    | '&' :: '&' :: cs => readClass table flags fuel outer (cls.operator flags .intersection) cs
    | '-' :: '-' :: cs => readClass table flags fuel outer (cls.operator flags .difference) cs
    | '~' :: '~' :: cs =>
      readClass table flags fuel outer (cls.operator flags .symmetricDifference) cs
    | cs => do
      let (set, rest) ← readClassItem table flags cs
      readClass table flags fuel outer (cls.add { set }) rest

/-! ## Groups -/

/-- The flags after one letter of a list of flags. -/
def MatchFlags.set? (flags : MatchFlags) (letter : Char) (value : Bool) : Option MatchFlags :=
  match letter with
  | 'i' => some { flags with anyCase := value }
  | 'm' => some { flags with multiline := value }
  | 's' => some { flags with dotAll := value }
  | 'U' => some { flags with swapGreed := value }
  | 'u' => some { flags with unicode := value }
  | 'R' => some { flags with crlf := value }
  | 'x' => some { flags with verbose := value }
  | _ => none

/-- A list of flags. A letter may stand in it once, and so may the hyphen behind which flags are
switched off. The answer includes whether a colon ends the list, and so begins a group. -/
def readFlags (seen : List Char) (flags : MatchFlags) : Reader (MatchFlags × Bool)
  | [] => .error .unexpectedEnd
  | c :: cs =>
    if c = ':' ∨ c = ')' then
      if seen.head? = some '-' ∨ (c = ')' ∧ seen.isEmpty) then .error .badFlags
      else .ok ((flags, c == ':'), cs)
    else if seen.contains c then .error .badFlags
    else if c = '-' then readFlags (c :: seen) flags cs
    else
      match flags.set? c (!seen.contains '-') with
      | some flags => readFlags (c :: seen) flags cs
      | none => .error .badFlags

/-- Whether a text can be the name of a group. -/
def isGroupName : List Char → Bool
  | [] => false
  | c :: cs =>
    (c == '_' || isAlphabetic c) &&
      cs.all fun c => c == '_' || c == '.' || c == '[' || c == ']' || isAlphanumeric c

/-- A group with a name, after the angle that opens the name. -/
def readGroupName (flags : MatchFlags) : Reader Token := fun cs =>
  match cs.dropWhile (· != '>') with
  | _ :: rest =>
    let name := cs.takeWhile (· != '>')
    if isGroupName name then .ok (.openGroup flags true (some name), rest) else .error .badGroupName
  | [] => .error .badGroupName

/-- The start of a group, or a change of flags, after the parenthesis. -/
def readGroup (flags : MatchFlags) : Reader Token := fun cs =>
  match skipVerbose flags.verbose cs with
  | '?' :: '=' :: _ | '?' :: '!' :: _ | '?' :: '<' :: '=' :: _ | '?' :: '<' :: '!' :: _ =>
    .error .lookAround
  | '?' :: 'P' :: '<' :: cs | '?' :: '<' :: cs => readGroupName flags cs
  | '?' :: cs => do
    let ((inner, isGroup), rest) ← readFlags [] flags cs
    .ok (if isGroup then .openGroup inner false none else .setFlags inner, rest)
  | cs => .ok (.openGroup flags true none, cs)

/-! ## Repetitions -/

/-- A repetition, before the mark that may follow it: a question mark makes it lazy, or greedy when
the two are swapped. -/
def readRepetition (flags : MatchFlags) (min : Nat) (max : Option Nat) :
    List Char → Token × List Char
  | '?' :: cs => (.repetition min max flags.swapGreed, cs)
  | cs => (.repetition min max (!flags.swapGreed), cs)

/-- A count in braces, with white space around it, if there is one. -/
def readCount (verbose : Bool) : Reader (Option Nat) := fun cs =>
  let cs := cs.dropWhile isWhitespace
  let (digits, rest) := takeSpaced verbose isAsciiDigit cs.length cs
  let rest := rest.dropWhile isWhitespace
  if digits.isEmpty then .ok (none, rest)
  else if decimalNumber digits < 0x100000000 then .ok (some (decimalNumber digits), rest)
  else .error .badRepetition

/-- A counted repetition, after its opening brace. -/
def readCounted (flags : MatchFlags) : Reader Token := fun cs => do
  let skip := skipVerbose flags.verbose
  let finish (min : Nat) (max : Option Nat) (cs : List Char) :
      Except PatternError (Token × List Char) :=
    match cs with
    | '\x7d' :: cs =>
      if max.any (· < min) then .error .badRepetition
      else .ok (readRepetition flags min max (skip cs))
    | _ => .error .badRepetition
  let (low, cs) ← readCount flags.verbose (skip cs)
  match low, cs with
  | some n, ',' :: cs =>
    match skip cs with
    | '\x7d' :: cs => finish n none ('\x7d' :: cs)
    | cs => do
      let (high, cs) ← readCount flags.verbose cs
      match high with
      | some m => finish n (some m) cs
      | none => .error .badRepetition
  | some n, cs => finish n (some n) cs
  | none, _ => .error .badRepetition

/-! ## Tokens -/

/-- The set that a dot stands for. -/
def dotSet (flags : MatchFlags) : CharSet :=
  if flags.dotAll then .complement .empty
  else if flags.crlf then .complement (.union (.single '\n') (.single '\r'))
  else .complement (.single '\n')

/-- What `^` stands for. -/
def startAssertion (flags : MatchFlags) : Assertion :=
  if !flags.multiline then .textStart else if flags.crlf then .lineStartCrlf else .lineStart

/-- What `$` stands for. -/
def endAssertion (flags : MatchFlags) : Assertion :=
  if !flags.multiline then .textEnd else if flags.crlf then .lineEndCrlf else .lineEnd

/-- The next token of a pattern, unless the pattern ends here. -/
def nextToken (table : PropertyTable) (flags : MatchFlags) (cs : List Char) :
    Except PatternError (Option (Token × List Char)) := do
  let itemOf (p : Primitive × List Char) : Except PatternError (Option (Token × List Char)) :=
    (p.1.toPattern flags).map fun q => some (.item q, p.2)
  match skipVerbose flags.verbose cs with
  | [] => .ok none
  | '(' :: cs => (readGroup flags cs).map some
  | ')' :: cs => .ok (some (.closeGroup, cs))
  | '|' :: cs => .ok (some (.bar, cs))
  | '[' :: cs => do
    let (cls, rest) ← openClass flags cs
    let (part, rest) ← readClass table flags (rest.length + 1) [] cls rest
    let cls := { set := part.set, unicode := flags.unicode, nesting := part.nesting }
    .ok (some (.item (.oneOf cls), rest))
  | '?' :: cs => .ok (some (readRepetition flags 0 (some 1) cs))
  | '*' :: cs => .ok (some (readRepetition flags 0 none cs))
  | '+' :: cs => .ok (some (readRepetition flags 1 none cs))
  | '\x7b' :: cs => (readCounted flags cs).map some
  | '\\' :: cs => do itemOf (← readEscape table flags cs)
  | '.' :: cs => itemOf (.oneOf (dotSet flags), cs)
  | '^' :: cs => itemOf (.assertion (startAssertion flags), cs)
  | '$' :: cs => itemOf (.assertion (endAssertion flags), cs)
  | c :: cs => itemOf (.literal c, cs)

end LayeredConfig.Pattern
