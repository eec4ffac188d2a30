import LayeredConfig.Rule.Evaluate

/-!
# Comparison chains

A chain `a < b == c` means that `a < b` and `b == c`. Its evaluation carries the operand between two
comparisons along, while the conjunction evaluates it twice, once on each side. Both come to the
same value or error, and neither gets past the first comparison that does not hold.

The chain is compared with the conjunction that is nested to the right, one comparison at a time
(`evaluate_compare_cons`), and how a conjunction is nested is of no account (`evaluate_and_assoc`).
-/

namespace LayeredConfig.Expr

variable {env : RuleEnv} {a b c first e : Expr} {op : CompareOp} {es : List Expr}
  {rest before : List (CompareOp × Expr)}

/-- The comparisons of a chain, each with its own two operands. -/
def links : (first : Expr) → List (CompareOp × Expr) → List Expr
  | _, [] => []
  | first, (op, e) :: rest => .compare first [(op, e)] :: links e rest

/-- The last operand of a chain. -/
def lastOperand : (first : Expr) → List (CompareOp × Expr) → Expr
  | first, [] => first
  | _, (_, e) :: rest => lastOperand e rest

/-- The conjunction of some expressions, nested to the left. -/
def allOf (e : Expr) (es : List Expr) : Expr :=
  es.foldl .and e

/-! ## Conjunctions -/

/-- A conjunction has the value of its left side if that is false, and that of its right side
otherwise. -/
theorem evaluate_and (env : RuleEnv) (a b : Expr) :
    (Expr.and a b).evaluate env =
      a.evaluate env >>= fun v => if v.isTruthy then b.evaluate env else .ok v := by
  rw [evaluate]

/-- How a conjunction is nested makes no difference. -/
theorem evaluate_and_assoc (env : RuleEnv) (a b c : Expr) :
    (Expr.and (.and a b) c).evaluate env = (Expr.and a (.and b c)).evaluate env := by
  rw [evaluate_and, evaluate_and, evaluate_and]
  cases a.evaluate env with
  | error err => rfl
  | ok v =>
    change (if v.isTruthy then b.evaluate env else .ok v) >>= _ =
      if v.isTruthy then (Expr.and b c).evaluate env else .ok v
    by_cases hv : v.isTruthy = true
    · rw [if_pos hv, if_pos hv, evaluate_and]
    · rw [if_neg hv, if_neg hv]
      exact if_neg hv

/-- A conjunction depends on the left side by its value only. -/
theorem evaluate_and_congr (h : a.evaluate env = b.evaluate env) :
    (Expr.and a c).evaluate env = (Expr.and b c).evaluate env := by
  rw [evaluate_and, evaluate_and, h]

/-- Only the value of the first part is used. -/
theorem evaluate_allOf_congr (h : a.evaluate env = b.evaluate env) (es : List Expr) :
    (allOf a es).evaluate env = (allOf b es).evaluate env := by
  induction es generalizing a b with
  | nil => exact h
  | cons e es ih => exact ih (evaluate_and_congr h)

/-- A conjunction at the start of some conjuncts can be taken apart. -/
theorem evaluate_allOf_and (env : RuleEnv) (a b : Expr) (es : List Expr) :
    (allOf (.and a b) es).evaluate env = (Expr.and a (allOf b es)).evaluate env := by
  induction es generalizing b with
  | nil => rfl
  | cons e es ih => exact (evaluate_allOf_congr (evaluate_and_assoc env a b e) es).trans (ih _)

/-! ## Chains -/

/-- A single comparison is true or false, if it can be made. -/
theorem evaluate_compare_singleton (env : RuleEnv) (first : Expr) (op : CompareOp) (e : Expr) :
    (Expr.compare first [(op, e)]).evaluate env = (do
      let left ← first.evaluate env
      let right ← e.evaluate env
      let holds ← (left.compare op right).mapError .invalid
      .ok (.bool holds)) := by
  simp only [evaluate, evaluateChain]
  refine bind_congr fun left => bind_congr fun right => bind_congr fun holds => ?_
  cases holds <;> rfl

/-- A chain is the conjunction of its first comparison and the chain behind it. The operand between
the two has the same value on both sides. -/
theorem evaluate_compare_cons (env : RuleEnv) (first : Expr) (op : CompareOp) (e : Expr)
    (rest : List (CompareOp × Expr)) :
    (Expr.compare first ((op, e) :: rest)).evaluate env =
      (Expr.and (.compare first [(op, e)]) (.compare e rest)).evaluate env := by
  rw [evaluate_and, evaluate_compare_singleton, evaluate, bind_assoc]
  refine bind_congr fun left => ?_
  rw [evaluateChain]
  -- the operand between the two comparisons is evaluated in either, with the same outcome
  cases he : e.evaluate env with
  | error err => rfl
  | ok right =>
    have hrest : (Expr.compare e rest).evaluate env = evaluateChain env right rest := by
      rw [evaluate, he]
      rfl
    rw [hrest]
    change ((left.compare op right).mapError PredicateError.invalid >>= _) =
      (((left.compare op right).mapError PredicateError.invalid >>= _) >>= _)
    rw [bind_assoc]
    refine bind_congr fun holds => ?_
    cases holds <;> rfl

/-- A chain is the conjunction of its comparisons. -/
theorem evaluate_compare_eq_allOf (env : RuleEnv) (first : Expr) (op : CompareOp) (e : Expr)
    (rest : List (CompareOp × Expr)) :
    (Expr.compare first ((op, e) :: rest)).evaluate env =
      (allOf (.compare first [(op, e)]) (links e rest)).evaluate env := by
  induction rest generalizing first op e with
  | nil => rfl
  | cons next rest ih =>
    obtain ⟨op', e'⟩ := next
    calc (Expr.compare first ((op, e) :: (op', e') :: rest)).evaluate env
        = (Expr.and (.compare first [(op, e)]) (.compare e ((op', e') :: rest))).evaluate env :=
          evaluate_compare_cons env first op e _
      _ = (Expr.and (.compare first [(op, e)])
            (allOf (.compare e [(op', e')]) (links e' rest))).evaluate env := by
          rw [evaluate_and, evaluate_and, ih]
      _ = (allOf (.and (.compare first [(op, e)]) (.compare e [(op', e')]))
            (links e' rest)).evaluate env :=
          (evaluate_allOf_and env _ _ _).symm

/-- The first comparison that does not hold makes the chain false, whatever follows. -/
theorem evaluate_compare_of_first_false {others : List (CompareOp × Expr)}
    (hbefore : ∀ link ∈ links first before, link.evaluate env = .ok (.bool true))
    (hfalse : (Expr.compare (lastOperand first before) [(op, e)]).evaluate env =
      .ok (.bool false)) :
    (Expr.compare first (before ++ (op, e) :: others)).evaluate env = .ok (.bool false) := by
  induction before generalizing first with
  | nil =>
    rw [lastOperand] at hfalse
    rw [List.nil_append, evaluate_compare_cons, evaluate_and, hfalse]
    rfl
  | cons link before ih =>
    obtain ⟨op', e'⟩ := link
    obtain ⟨hlink, hbefore⟩ := List.forall_mem_cons.mp hbefore
    rw [List.cons_append, evaluate_compare_cons, evaluate_and, hlink]
    exact ih hbefore hfalse

/-- A chain has the value, or the error, of the conjunction of its comparisons that is nested to the
left. The operands behind the first comparison that does not hold could be any others: they are not
evaluated and cause no error. -/
theorem evaluate_compare_eq_conjunction (env : RuleEnv) (first : Expr) (op : CompareOp) (e : Expr)
    (rest : List (CompareOp × Expr)) :
    (Expr.compare first ((op, e) :: rest)).evaluate env =
        (allOf (.compare first [(op, e)]) (links e rest)).evaluate env ∧
      ∀ before op' e' after, (op, e) :: rest = before ++ (op', e') :: after →
        (∀ link ∈ links first before, link.evaluate env = .ok (.bool true)) →
        (Expr.compare (lastOperand first before) [(op', e')]).evaluate env = .ok (.bool false) →
        ∀ others, (Expr.compare first (before ++ (op', e') :: others)).evaluate env =
          .ok (.bool false) :=
  ⟨evaluate_compare_eq_allOf env first op e rest,
    fun _ _ _ _ _ hbefore hfalse _ => evaluate_compare_of_first_false hbefore hfalse⟩

/-- The environment in which nothing is known. -/
def bare : RuleEnv :=
  { val := .nothing, cnf := .nothing, registry := .empty }

/-- In `1 < 2 < 2 == missing` the second comparison does not hold, and the last operand has no
value. -/
theorem evaluate_compare_eq_conjunction_stopping :
    (Expr.name "missing").evaluate bare = .error (.invalid (.undefinedName "missing")) ∧
      (Expr.compare (.literal (.int 1)) [(.lt, .literal (.int 2)), (.lt, .literal (.int 2)),
        (.eq, .name "missing")]).evaluate bare = .ok (.bool false) ∧
      (Expr.and (.and (.compare (.literal (.int 1)) [(.lt, .literal (.int 2))])
          (.compare (.literal (.int 2)) [(.lt, .literal (.int 2))]))
        (.compare (.literal (.int 2)) [(.eq, .name "missing")])).evaluate bare =
          .ok (.bool false) := by
  obtain ⟨hconjunction, hstops⟩ := evaluate_compare_eq_conjunction bare (.literal (.int 1)) .lt
    (.literal (.int 2)) [(.lt, .literal (.int 2)), (.eq, .name "missing")]
  have hfalse := hstops [(.lt, .literal (.int 2))] .lt (.literal (.int 2)) [(.eq, .name "missing")]
    rfl (List.forall_mem_singleton.mpr rfl) rfl [(.eq, .name "missing")]
  exact ⟨rfl, hfalse, hconjunction.symm.trans hfalse⟩

end LayeredConfig.Expr
