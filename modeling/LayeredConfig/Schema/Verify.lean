import LayeredConfig.Rule.Evaluate
import LayeredConfig.Schema.Basic

/-!
# Verifying a configuration

Every key of a section needs a first rule that matches its name and its shape. A scalar has to
satisfy the rule, and a section the rules nested in it. After all keys, every mandatory rule has
to be the first one for some key. The first failure counts.
-/

namespace LayeredConfig.RuleSet

/-- Checks the text of the key at `path` against a rule, seen from the section `cnf`. -/
def verifyText (registry : PredicateRegistry) (path : KeyPath) (history : Provenance)
    (cnf : RuleValue) (rule : KeyRule) (body : Rule) (text : String) :
    Except VerificationError Unit :=
  let refuse (fault : VerificationFault) : Except VerificationError Unit :=
    .error { fault, configKey := path, configHistory := history,
             ruleKey := rule.path, ruleHistory := rule.history }
  match body.evaluate { val := .str text, cnf, registry } with
  | .ok v => if v.isTruthy then .ok () else refuse .ruleFailed
  | .error e => refuse (.ofPredicateError e)

/-- Checks that every mandatory rule is among those with the given indices. -/
def verifyMandatory (path : KeyPath) (history : Provenance) (rules : RuleSet)
    (matched : List Nat) : Except VerificationError Unit :=
  match rules.rules.zipIdx.find? fun (rule, i) => rule.mandatory && !matched.contains i with
  | none => .ok ()
  | some (rule, _) =>
    .error { fault := .missingMandatoryKey, configKey := path, configHistory := history,
             ruleKey := rule.path, ruleHistory := rule.history }

mutual

/-- Checks the section at `path` against some rules. -/
def verifySection (registry : PredicateRegistry) (path : KeyPath) (history : Provenance)
    (rules : RuleSet) : (config : Section) → Except VerificationError Unit
  | ⟨name, ⟨entries⟩⟩ => do
    let cnf := RuleValue.map (Section.toPlain ⟨name, ⟨entries⟩⟩)
    let matched ← verifyEntries registry path rules cnf entries
    verifyMandatory path history rules matched

/-- Checks some entries of the section at `path`, and lists the indices of their rules. -/
def verifyEntries (registry : PredicateRegistry) (path : KeyPath) (rules : RuleSet)
    (cnf : RuleValue) : List (String × Entry) → Except VerificationError (List Nat)
  | [] => .ok []
  | (key, ⟨value, attrs⟩) :: entries =>
    match rules.find? key value with
    | none =>
      .error { fault := .noRuleFound, configKey := path.push key, configHistory := attrs.history,
               ruleKey := rules.path, ruleHistory := rules.history }
    | some (rule, index) => do
      verifyValue registry (path.push key) attrs.history cnf rule value
      let indices ← verifyEntries registry path rules cnf entries
      .ok (index :: indices)

/-- Checks the value of the key at `path` against its rule. -/
def verifyValue (registry : PredicateRegistry) (path : KeyPath) (history : Provenance)
    (cnf : RuleValue) (rule : KeyRule) : Value → Except VerificationError Unit
  | .scalar s =>
    match rule.body with
    | .value body => verifyText registry path history cnf rule body s.render
    | .keys _ => .ok ()
  | .subsection s =>
    match rule.body with
    | .keys rules => verifySection registry path history rules s
    | .value _ => .ok ()

end

/-- Checks a whole configuration, the document at `file`. -/
def verify (rules : RuleSet) (registry : PredicateRegistry) (config : Section) (file : String) :
    Except VerificationError Unit :=
  rules.verifySection registry {} (.ofOrigin (.ofFile file)) config

end LayeredConfig.RuleSet
