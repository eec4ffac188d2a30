import LayeredConfig.Pattern.Error

/-!
# Why a rule gives no value

A predicate may reject the value under verification with a message of its own. Otherwise the rule
itself cannot be read or evaluated, for one of the reasons listed here.
-/

namespace LayeredConfig

/-- What is wrong with the text of a rule. -/
inductive RuleSyntax
  | unexpectedChar (c : Char)
  | integerTooLarge
  | unterminatedString
  | expected (what : String)
  /-- A call of something that is no name. -/
  | notCallable
  | unexpectedEnd
  | unexpectedToken
  | unexpectedWord (word : String)
deriving DecidableEq, Repr

/-- What is wrong with the text of a rule, in words. -/
def RuleSyntax.message : RuleSyntax → String
  | .unexpectedChar c => s!"unexpected '{c}'"
  | .integerTooLarge => "integer literal too large"
  | .unterminatedString => "unterminated string"
  | .expected what => s!"expected {what}"
  | .notCallable => "only predicates can be called"
  | .unexpectedEnd => "unexpected end of rule"
  | .unexpectedToken => "unexpected token"
  | .unexpectedWord word => s!"unexpected '{word}'"

/-- Why a rule cannot be read or evaluated. -/
inductive RuleFault
  /-- The text of the rule is wrong at a byte. -/
  | malformed (offset : Nat) (fault : RuleSyntax)
  | undefinedName (name : String)
  | missingKey (key : String)
  | keyNotString (type : String)
  | notSubscriptable (type : String)
  | notComparable (op left right : String)
  | needleNotString (type : String)
  | notIterable (type : String)
  | wrongArgumentCount (name : String) (expected given : Nat)
  | matchNeedsStrings
  | badPattern (pattern : String) (cause : PatternError)
  /-- The pattern of a rule for key names is wrong. -/
  | badKeyPattern (key : String) (cause : PatternError)
  /-- Any other reason, in the words of a predicate. -/
  | other (message : String)
deriving DecidableEq, Repr

/-- The reason in words, given how errors in patterns are explained. -/
def RuleFault.messageWith (explain : PatternError → String) : RuleFault → String
  | .malformed offset fault => s!"invalid syntax at column {offset + 1}: {fault.message}"
  | .undefinedName name => s!"name '{name}' is not defined"
  | .missingKey key => s!"KeyError: '{key}'"
  | .keyNotString type => s!"mapping keys are strings, not '{type}'"
  | .notSubscriptable type => s!"'{type}' object is not subscriptable"
  | .notComparable op left right =>
    s!"'{op}' not supported between instances of '{left}' and '{right}'"
  | .needleNotString type => s!"'in' requires a string as left operand, not '{type}'"
  | .notIterable type => s!"argument of type '{type}' is not iterable"
  | .wrongArgumentCount name expected given =>
    let plural := if expected = 1 then "" else "s"
    s!"{name}() takes {expected} argument{plural} ({given} given)"
  | .matchNeedsStrings => "re() matches a string against a string pattern"
  | .badPattern pattern cause => s!"bad pattern '{pattern}': {explain cause}"
  | .badKeyPattern key cause => s!"bad key rule '{key}': {explain cause}"
  | .other message => message

/-- Why a predicate, or a whole rule, gives no value. -/
inductive PredicateError
  /-- The value under verification is rejected. -/
  | failed (message : String)
  /-- The rule cannot be read or evaluated. -/
  | invalid (fault : RuleFault)
deriving DecidableEq, Repr

/-- The reason in words, given how errors in patterns are explained. -/
def PredicateError.messageWith (explain : PatternError → String) : PredicateError → String
  | .failed message => message
  | .invalid fault => fault.messageWith explain

end LayeredConfig
