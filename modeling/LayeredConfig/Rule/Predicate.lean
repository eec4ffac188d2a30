import LayeredConfig.Pattern.Engine
import LayeredConfig.Rule.Error
import LayeredConfig.Rule.Value

/-!
# Predicates

The functions that rules can call. A predicate sees the value under verification and the arguments
of its call. Three are built in: `re` matches the value against a pattern, `fail` rejects it, and
`cond` rejects it unless a condition holds.
-/

namespace LayeredConfig

/-- A function that rules can call. -/
abbrev Predicate := (val : RuleValue) → (args : List RuleValue) → Except PredicateError RuleValue

namespace Predicate

/-- The error for a call with a wrong number of arguments. -/
def wrongArgumentCount (name : String) (expected : Nat) (args : List RuleValue) :
    Except PredicateError RuleValue :=
  .error (.invalid (.wrongArgumentCount name expected args.length))

/-- Whether a pattern matches at the start of the value, with dots matching line feeds too. -/
def re (engine : PatternEngine) : Predicate := fun val args =>
  match args with
  | [pattern] =>
    match pattern, val with
    | .str pattern, .str val =>
      match engine.compile ("(?s)^(?:" ++ pattern ++ ")") with
      | .ok p => .ok (.bool (p.isMatch val))
      | .error cause => .error (.invalid (.badPattern pattern cause))
    | _, _ => .error (.invalid .matchNeedsStrings)
  | args => wrongArgumentCount "re" 1 args

/-- Rejects the value with a message. -/
def fail : Predicate := fun _ args =>
  match args with
  | [message] => .error (.failed message.render)
  | args => wrongArgumentCount "fail" 1 args

/-- Rejects the value with a message unless a condition counts as true. -/
def cond : Predicate := fun _ args =>
  match args with
  | [condition, message] =>
    if condition.isTruthy then .ok (.bool true) else .error (.failed message.render)
  | args => wrongArgumentCount "cond" 2 args

end Predicate

/-- The predicates that rules can call, by name. -/
structure PredicateRegistry where
  predicates : OrderedMap Predicate

namespace PredicateRegistry

/-- The registry without predicates. -/
def empty : PredicateRegistry :=
  { predicates := ∅ }

/-- Adds a predicate, in place of one with the same name. -/
def register (registry : PredicateRegistry) (name : String) (predicate : Predicate) :
    PredicateRegistry :=
  { predicates := registry.predicates.insert name predicate }

/-- The registry of the built-in predicates, over an engine for the patterns of `re`. -/
def builtin (engine : PatternEngine) : PredicateRegistry :=
  ((empty.register "re" (Predicate.re engine)).register "fail" Predicate.fail).register "cond"
    Predicate.cond

/-- Adds all predicates of another registry, which win over ones with the same names. -/
def extend (registry other : PredicateRegistry) : PredicateRegistry :=
  other.predicates.toList.foldl (fun r (name, predicate) => r.register name predicate) registry

/-- The predicate with a name. -/
def get? (registry : PredicateRegistry) (name : String) : Option Predicate :=
  registry.predicates.get? name

/-- Whether there is a predicate with a name. -/
def contains (registry : PredicateRegistry) (name : String) : Bool :=
  registry.predicates.contains name

/-- The names of all predicates, sorted. -/
def names (registry : PredicateRegistry) : List String :=
  registry.predicates.keys.mergeSort fun a b => a ≤ b

end PredicateRegistry

end LayeredConfig
