import LayeredConfig.Pattern.Engine
import LayeredConfig.Rule.Expr
import LayeredConfig.Schema.Error
import LayeredConfig.Section.Basic

/-!
# Schemas

A schema is a document whose keys are patterns for the names of keys. The value of such a key is
either a section of further rules, or a rule that a scalar value has to satisfy. The rules of a
section are tried in order.
-/

namespace LayeredConfig

mutual

/-- What is required of the values of the keys that a rule matches. -/
inductive RuleBody
  /-- They are scalars that satisfy a rule. -/
  | value (rule : Rule)
  /-- They are sections, whose keys follow rules of their own. -/
  | keys (rules : RuleSet)

/-- A rule for the keys of a section. -/
structure KeyRule where
  path : KeyPath
  /-- What the name of a key has to match. -/
  pattern : CompiledPattern
  /-- Some key has to be matched. -/
  mandatory : Bool
  body : RuleBody
  history : Provenance

/-- The rules of one section, in order. -/
structure RuleSet where
  path : KeyPath
  history : Provenance
  rules : List KeyRule

end

namespace KeyRule

/-- The rule as its key is written in the schema. -/
def key (rule : KeyRule) : String :=
  rule.path.key

/-- Whether the rule is for sections. -/
def isForSections (rule : KeyRule) : Bool :=
  match rule.body with
  | .keys _ => true
  | .value _ => false

/-- Whether the rule is the one for a key: its pattern matches the name, and it is for sections
exactly if the value is one. -/
def matchesEntry (rule : KeyRule) (key : String) (value : Value) : Bool :=
  rule.pattern.isMatch key && rule.isForSections == value.isSubsection

end KeyRule

namespace RuleSet

/-- The first rule for a key, with its index. -/
def find? (rules : RuleSet) (key : String) (value : Value) : Option (KeyRule × Nat) :=
  rules.rules.zipIdx.find? fun (rule, _) => rule.matchesEntry key value

/-- The pattern for the names of keys that a key of a schema stands for: a match has to take the
whole name. -/
def keyPattern (engine : PatternEngine) (key : String) : Except PatternError CompiledPattern :=
  engine.compile ("^(?:" ++ key ++ ")$")

/-- The error for a rule that cannot be read. -/
def unreadable (path : KeyPath) (history : Provenance) (fault : RuleFault) : VerificationError :=
  { fault := .predicateError fault, ruleKey := path, ruleHistory := history }

mutual

/-- The rules of the section at `path`. -/
def ofSection (engine : PatternEngine) (path : KeyPath) (history : Provenance) :
    Section → Except VerificationError RuleSet
  | ⟨_, ⟨entries⟩⟩ =>
    (rulesOfEntries engine path entries).map fun rules => { path, history, rules }

/-- The rules of some entries of the section at `path`. -/
def rulesOfEntries (engine : PatternEngine) (path : KeyPath) :
    List (String × Entry) → Except VerificationError (List KeyRule)
  | [] => .ok []
  | (key, ⟨value, attrs⟩) :: entries => do
    let path' := path.push key
    let pattern ← (keyPattern engine key).mapError fun cause =>
      unreadable path' attrs.history (.badKeyPattern key cause)
    let body ← bodyOfValue engine path' attrs.history value
    let rules ← rulesOfEntries engine path entries
    .ok ({ path := path', pattern, mandatory := attrs.flags.mandatory, body,
           history := attrs.history } :: rules)

/-- What the value of the key at `path` requires. -/
def bodyOfValue (engine : PatternEngine) (path : KeyPath) (history : Provenance) :
    Value → Except VerificationError RuleBody
  | .scalar s => ((Rule.parse s.render).mapError (unreadable path history)).map .value
  | .subsection s => (ofSection engine path history s).map .keys

end

/-- The rules of a whole schema, the document at `file`. -/
def ofSchema (engine : PatternEngine) (schema : Section) (file : String) :
    Except VerificationError RuleSet :=
  ofSection engine {} (.ofOrigin (.ofFile file)) schema

end RuleSet

end LayeredConfig
