import LayeredConfig.Rule.Expr
import LayeredConfig.Rule.Predicate

/-!
# Evaluating rules

A rule is evaluated with two names bound: `VAL` to the value under verification and `CNF` to the
mapping that holds it. Conjunctions, disjunctions and comparison chains stop as soon as their
result is known, and then whatever they have not come to cannot fail.
-/

namespace LayeredConfig

/-- What the names of a rule stand for. -/
structure RuleEnv where
  /-- The value under verification. -/
  val : RuleValue
  /-- The section that holds it, as a mapping. -/
  cnf : RuleValue
  registry : PredicateRegistry

namespace RuleValue

/-- The value of a mapping at a key. -/
def subscript : (target index : RuleValue) → Except RuleFault RuleValue
  | .map m, .str key =>
    match m.get? key with
    | some value => .ok (.ofPlain value)
    | none => .error (.missingKey key)
  | .map _, index => .error (.keyNotString index.typeName)
  | target, _ => .error (.notSubscriptable target.typeName)

/-- How two values are ordered: integers by size, strings by their characters. -/
def order (op : CompareOp) (left right : RuleValue) : Except RuleFault Ordering :=
  match left, right with
  | .int a, .int b => .ok (Ord.compare a b)
  | .str a, .str b => .ok (Ord.compare a b)
  | _, _ => .error (.notComparable op.render left.typeName right.typeName)

/-- Whether one value lies in another: a string in a longer one, or a key in a mapping. -/
def isIn (needle haystack : RuleValue) : Except RuleFault Bool :=
  match needle, haystack with
  | .str n, .str h => .ok (Text.isInfix n.toList h.toList)
  | .str n, .map m => .ok (m.contains n)
  | n, .str _ => .error (.needleNotString n.typeName)
  | n, .map _ => .error (.needleNotString n.typeName)
  | _, h => .error (.notIterable h.typeName)

/-- Whether a comparison holds. -/
def compare (op : CompareOp) (left right : RuleValue) : Except RuleFault Bool :=
  match op with
  | .eq => .ok (left.equals right)
  | .ne => .ok (!left.equals right)
  | .lt => (order op left right).map (· == .lt)
  | .le => (order op left right).map (· != .gt)
  | .gt => (order op left right).map (· == .gt)
  | .ge => (order op left right).map (· != .lt)
  | .isIn => isIn left right
  | .notIn => (isIn left right).map (!·)

end RuleValue

namespace Expr

/-- What a name stands for. -/
def lookup (env : RuleEnv) : (word : String) → Except RuleFault RuleValue
  | "VAL" => .ok env.val
  | "CNF" => .ok env.cnf
  | word => .error (.undefinedName word)

mutual

/-- The value of an expression. -/
def evaluate (env : RuleEnv) : Expr → Except PredicateError RuleValue
  | .literal v => .ok v
  | .name word => (lookup env word).mapError .invalid
  | .call callee args =>
    match env.registry.get? callee with
    | none => .error (.invalid (.undefinedName callee))
    | some predicate => do
      let args ← evaluateArgs env args
      predicate env.val args
  | .subscript target index => do
    let target ← target.evaluate env
    let index ← index.evaluate env
    (target.subscript index).mapError .invalid
  | .not e => do
    let v ← e.evaluate env
    .ok (.bool !v.isTruthy)
  | .and left right => do
    let v ← left.evaluate env
    if v.isTruthy then right.evaluate env else .ok v
  | .or left right => do
    let v ← left.evaluate env
    if v.isTruthy then .ok v else right.evaluate env
  | .compare first rest => do
    let v ← first.evaluate env
    evaluateChain env v rest

/-- The values of the arguments of a call. -/
def evaluateArgs (env : RuleEnv) : List Expr → Except PredicateError (List RuleValue)
  | [] => .ok []
  | arg :: args => do
    let v ← arg.evaluate env
    let vs ← evaluateArgs env args
    .ok (v :: vs)

/-- Whether a comparison chain holds from the operand `left` on. -/
def evaluateChain (env : RuleEnv) (left : RuleValue) :
    List (CompareOp × Expr) → Except PredicateError RuleValue
  | [] => .ok (.bool true)
  | (op, e) :: rest => do
    let right ← e.evaluate env
    let holds ← (left.compare op right).mapError .invalid
    if holds then evaluateChain env right rest else .ok (.bool false)

end

end Expr

/-- The value of a rule. -/
def Rule.evaluate (rule : Rule) (env : RuleEnv) : Except PredicateError RuleValue :=
  rule.expr.evaluate env

end LayeredConfig
