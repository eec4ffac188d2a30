import LayeredConfig.Rule.Token
import LayeredConfig.Rule.Value

/-!
# Rule expressions

The value of a scalar key of a schema is an expression:

* `or` binds weaker than `and`, that weaker than `not`, and that weaker than comparisons;
* comparisons form chains, and `a < b < c` means `a < b and b < c`;
* calls and subscripts follow what they apply to, and only a name can be called.

`Expr.parse` reads an expression from its tokens. Every function takes the tokens that are left
and gives those left after it.
-/

namespace LayeredConfig

/-- A rule expression. -/
inductive Expr
  | literal (value : RuleValue)
  | name (name : String)
  | call (name : String) (args : List Expr)
  | subscript (target index : Expr)
  | not (e : Expr)
  | and (left right : Expr)
  | or (left right : Expr)
  | compare (first : Expr) (rest : List (CompareOp × Expr))

namespace Expr

/-- The tokens that are left. -/
abbrev Tokens := List RuleToken.Placed

/-- An error at the next token, or at the end of a text of `size` bytes. -/
def fail (size : Nat) (ts : Tokens) (fault : RuleSyntax) : Except RuleFault α :=
  .error (.malformed ((ts.head?.map (·.2)).getD size) fault)

/-- The tokens after a given one, if it comes next. -/
def eat? (token : RuleToken) : Tokens → Option Tokens
  | (t, _) :: ts => if t = token then some ts else none
  | [] => none

/-- The tokens after a given one, which has to come next. -/
def expect (size : Nat) (token : RuleToken) (what : String) (ts : Tokens) :
    Except RuleFault Tokens :=
  match eat? token ts with
  | some ts => .ok ts
  | none => fail size ts (.expected what)

/-- The comparison that comes next, if there is one. -/
def compareOp? : Tokens → Option (CompareOp × Tokens)
  | (.compare op, _) :: ts => some (op, ts)
  | (.name "in", _) :: ts => some (.isIn, ts)
  | (.name "not", _) :: (.name "in", _) :: ts => some (.notIn, ts)
  | _ => none

/-- What a name stands for by itself. Keywords cannot stand alone. -/
def ofName : String → Except RuleSyntax Expr
  | "True" => .ok (.literal (.bool true))
  | "False" => .ok (.literal (.bool false))
  | "None" => .ok (.literal .nothing)
  | word =>
    if word = "and" ∨ word = "or" ∨ word = "not" ∨ word = "in" then .error (.unexpectedWord word)
    else .ok (.name word)

/-- A comparison chain; without any comparison it is the operand alone. -/
def ofChain (first : Expr) : List (CompareOp × Expr) → Expr
  | [] => first
  | rest => .compare first rest

mutual

/-- An expression of the lowest precedence. -/
def disjunction (size : Nat) : (fuel : Nat) → Tokens → Except RuleFault (Expr × Tokens)
  | 0, ts => fail size ts .unexpectedEnd
  | fuel + 1, ts => do
    let (left, ts) ← conjunction size fuel ts
    disjunctionTail size fuel left ts

/-- The alternatives after `left`. -/
def disjunctionTail (size : Nat) :
    (fuel : Nat) → (left : Expr) → Tokens → Except RuleFault (Expr × Tokens)
  | 0, _, ts => fail size ts .unexpectedEnd
  | fuel + 1, left, ts =>
    match eat? (.name "or") ts with
    | none => .ok (left, ts)
    | some ts => do
      let (right, ts) ← conjunction size fuel ts
      disjunctionTail size fuel (.or left right) ts

/-- A conjunction. -/
def conjunction (size : Nat) : (fuel : Nat) → Tokens → Except RuleFault (Expr × Tokens)
  | 0, ts => fail size ts .unexpectedEnd
  | fuel + 1, ts => do
    let (left, ts) ← negation size fuel ts
    conjunctionTail size fuel left ts

/-- The further parts of a conjunction after `left`. -/
def conjunctionTail (size : Nat) :
    (fuel : Nat) → (left : Expr) → Tokens → Except RuleFault (Expr × Tokens)
  | 0, _, ts => fail size ts .unexpectedEnd
  | fuel + 1, left, ts =>
    match eat? (.name "and") ts with
    | none => .ok (left, ts)
    | some ts => do
      let (right, ts) ← negation size fuel ts
      conjunctionTail size fuel (.and left right) ts

/-- A comparison, negated any number of times. -/
def negation (size : Nat) : (fuel : Nat) → Tokens → Except RuleFault (Expr × Tokens)
  | 0, ts => fail size ts .unexpectedEnd
  | fuel + 1, ts =>
    match eat? (.name "not") ts with
    | some ts => (negation size fuel ts).map fun (e, ts) => (.not e, ts)
    | none => comparison size fuel ts

/-- A comparison chain. -/
def comparison (size : Nat) : (fuel : Nat) → Tokens → Except RuleFault (Expr × Tokens)
  | 0, ts => fail size ts .unexpectedEnd
  | fuel + 1, ts => do
    let (first, ts) ← postfixed size fuel ts
    let (rest, ts) ← comparisonTail size fuel ts
    .ok (ofChain first rest, ts)

/-- The comparisons after the first operand of a chain. -/
def comparisonTail (size : Nat) : (fuel : Nat) → Tokens →
    Except RuleFault (List (CompareOp × Expr) × Tokens)
  | 0, ts => fail size ts .unexpectedEnd
  | fuel + 1, ts =>
    match compareOp? ts with
    | none => .ok ([], ts)
    | some (op, ts) => do
      let (e, ts) ← postfixed size fuel ts
      let (rest, ts) ← comparisonTail size fuel ts
      .ok ((op, e) :: rest, ts)

/-- An operand with the calls and subscripts after it. -/
def postfixed (size : Nat) : (fuel : Nat) → Tokens → Except RuleFault (Expr × Tokens)
  | 0, ts => fail size ts .unexpectedEnd
  | fuel + 1, ts => do
    let (e, ts) ← primary size fuel ts
    postfixedTail size fuel e ts

/-- The calls and subscripts after `e`. -/
def postfixedTail (size : Nat) :
    (fuel : Nat) → (e : Expr) → Tokens → Except RuleFault (Expr × Tokens)
  | 0, _, ts => fail size ts .unexpectedEnd
  | fuel + 1, e, ts =>
    match ts with
    | (.openParen, _) :: rest =>
      match e with
      | .name callee => do
        let (args, rest) ← arguments size fuel rest
        postfixedTail size fuel (.call callee args) rest
      | _ => fail size ts .notCallable
    | (.openBracket, _) :: rest => do
      let (index, rest) ← disjunction size fuel rest
      let rest ← expect size .closeBracket "']'" rest
      postfixedTail size fuel (.subscript e index) rest
    | _ => .ok (e, ts)

/-- The arguments of a call after its opening parenthesis. -/
def arguments (size : Nat) : (fuel : Nat) → Tokens → Except RuleFault (List Expr × Tokens)
  | 0, ts => fail size ts .unexpectedEnd
  | fuel + 1, ts =>
    match eat? .closeParen ts with
    | some ts => .ok ([], ts)
    | none => argumentList size fuel ts

/-- At least one argument, up to the closing parenthesis. -/
def argumentList (size : Nat) : (fuel : Nat) → Tokens → Except RuleFault (List Expr × Tokens)
  | 0, ts => fail size ts .unexpectedEnd
  | fuel + 1, ts => do
    let (arg, ts) ← disjunction size fuel ts
    match eat? .closeParen ts with
    | some ts => .ok ([arg], ts)
    | none => do
      let ts ← expect size .comma "',' or ')'" ts
      let (args, ts) ← argumentList size fuel ts
      .ok (arg :: args, ts)

/-- An operand by itself. -/
def primary (size : Nat) : (fuel : Nat) → Tokens → Except RuleFault (Expr × Tokens)
  | 0, ts => fail size ts .unexpectedEnd
  | fuel + 1, ts =>
    match ts with
    | [] => fail size ts .unexpectedEnd
    | (.str s, _) :: rest => .ok (.literal (.str s), rest)
    | (.int n, _) :: rest => .ok (.literal (.int n), rest)
    | (.name word, _) :: rest =>
      match ofName word with
      | .ok e => .ok (e, rest)
      | .error fault => fail size ts fault
    | (.openParen, _) :: rest => do
      let (e, rest) ← disjunction size fuel rest
      let rest ← expect size .closeParen "')'" rest
      .ok (e, rest)
    | _ => fail size ts .unexpectedToken

end

/-- The fuel that suffices for some tokens: between two tokens at most eight functions call each
other. -/
def fuelFor (ts : Tokens) : Nat :=
  8 * (ts.length + 1)

/-- Reads an expression that takes all tokens of a text of `size` bytes. -/
def parse (size : Nat) (ts : Tokens) : Except RuleFault Expr := do
  let (e, rest) ← disjunction size (fuelFor ts) ts
  if rest.isEmpty then .ok e else fail size rest .unexpectedToken

end Expr

/-- A rule that has been read, together with its text. -/
structure Rule where
  source : String
  expr : Expr

/-- Reads a rule. -/
def Rule.parse (source : String) : Except RuleFault Rule := do
  let tokens ← RuleToken.ofText source
  let expr ← Expr.parse (Text.byteLength source.toList) tokens
  .ok { source, expr }

end LayeredConfig
