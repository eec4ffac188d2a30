import LayeredConfig.KeyPath
import LayeredConfig.Rule.Error
import LayeredConfig.Source.Origin

/-!
# Why a configuration is refused

A verification error names the key of the configuration and the rule of the schema that it is
about, each with the history of its definitions.
-/

namespace LayeredConfig

/-- Why a configuration does not satisfy a schema, or why the schema cannot be used. -/
inductive VerificationFault
  /-- No rule matches a key of the configuration. -/
  | noRuleFound
  /-- A mandatory rule matches no key of a section. -/
  | missingMandatoryKey
  /-- The value of a rule does not count as true. -/
  | ruleFailed
  /-- A predicate rejected the value with a message. -/
  | predicateFailed (message : String)
  /-- A rule cannot be read or evaluated. -/
  | predicateError (fault : RuleFault)
deriving DecidableEq, Repr

/-- The fault in words, given how errors in patterns are explained. -/
def VerificationFault.messageWith (explain : PatternError → String) : VerificationFault → String
  | .noRuleFound => "No-rule found"
  | .missingMandatoryKey => "Missing mandatory key"
  | .ruleFailed => "Rule-verification fails"
  | .predicateFailed message => s!"Verification fails : {message}"
  | .predicateError fault => s!"Verifier function exception: {fault.messageWith explain}"

/-- The fault that a predicate error amounts to. -/
def VerificationFault.ofPredicateError : PredicateError → VerificationFault
  | .failed message => .predicateFailed message
  | .invalid fault => .predicateError fault

/-- A failed verification. -/
structure VerificationError where
  fault : VerificationFault
  /-- The key of the configuration, or the section where a key is missing. -/
  configKey : KeyPath := {}
  configHistory : Provenance := {}
  /-- The rule, or the set of rules in which none was found. -/
  ruleKey : KeyPath := {}
  ruleHistory : Provenance := {}
deriving DecidableEq, Repr

namespace VerificationError

/-- The whole diagnostic, given how errors in patterns are explained. -/
def messageWith (explain : PatternError → String) (e : VerificationError) : String :=
  s!"{e.fault.messageWith explain}\n< Config >\nIssued key: {e.configKey.render}\n" ++
    s!"{e.configHistory.render}\n" ++ String.ofList (List.replicate 69 '*') ++
    s!"\n< Verifier >\nIssued keyrule: {e.ruleKey.render}\n{e.ruleHistory.render}"

/-- The whole diagnostic. -/
def message (e : VerificationError) : String :=
  e.messageWith PatternError.message

end VerificationError

end LayeredConfig
