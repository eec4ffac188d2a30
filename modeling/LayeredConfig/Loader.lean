import LayeredConfig.Schema.Verify
import LayeredConfig.Session.Parse

/-!
# Loading a configuration

A configuration is parsed, verified if there is a schema, and handed out as a plain mapping.
-/

namespace LayeredConfig

/-- Why a configuration cannot be loaded. -/
inductive LoadError
  /-- The configuration or the schema cannot be parsed. -/
  | parse (e : ParseError)
  /-- The configuration does not satisfy the schema. -/
  | verification (e : VerificationError)
deriving DecidableEq, Repr

/-- The whole diagnostic. -/
def LoadError.message : LoadError → String
  | .parse e => e.message
  | .verification e => e.message

/-- Parses the configuration at a path, and verifies it against the schema at another path. The
configuration is read first. -/
def loadSection (fs : FileSystem) (engine : PatternEngine) (registry : PredicateRegistry)
    (path : String) (schemaPath : Option String) : Except LoadError Section := do
  let config ← (parseFile fs .config path).mapError .parse
  match schemaPath with
  | none => .ok config
  | some schemaPath => do
    let schema ← (parseFile fs .schema schemaPath).mapError .parse
    let rules ← (RuleSet.ofSchema engine schema schemaPath).mapError .verification
    (rules.verify registry config path).mapError .verification
    .ok config

/-- Loads a configuration as a plain mapping. -/
def load (fs : FileSystem) (engine : PatternEngine) (registry : PredicateRegistry) (path : String)
    (schemaPath : Option String) : Except LoadError PlainMap :=
  (loadSection fs engine registry path schemaPath).map Section.toPlain

end LayeredConfig
