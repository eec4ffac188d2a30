import LayeredConfig.Proofs.Except
import LayeredConfig.Proofs.OrderedMap
import LayeredConfig.Rule.Evaluate

/-!
# Rules do not see the order of keys

A rule is handed the section around a key as a mapping, and a mapping lists its keys in some order.
The values of rules carry this order along, and the message of an error can show it. But whether a
rule has a value, and whether that counts as true, does not depend on it: every operation takes
values that differ only in the order of keys to such values again, and so do the built-in
predicates.
-/

namespace LayeredConfig

/-! ## Plain values -/

namespace PlainValue

variable {v v' : PlainValue} {m m' : PlainMap}

/-- Two plain values hold the same texts under the same keys, at every level in some order. -/
inductive Reordered : PlainValue → PlainValue → Prop
  | text (s : String) : Reordered (.text s) (.text s)
  | mapping {m m' : PlainMap} (distinct : m.keys.Nodup) (keys : m.keys.Perm m'.keys)
      (values : ∀ key v v', m.get? key = some v → m'.get? key = some v' → Reordered v v') :
      Reordered (.mapping m) (.mapping m')

namespace Reordered

/-- Reordered mappings have the same keys in some order. -/
theorem keys_perm (h : Reordered (.mapping m) (.mapping m')) : m.keys.Perm m'.keys := by
  cases h with
  | mapping _ keys _ => exact keys

/-- Reordered mappings have distinct keys. -/
theorem nodup_keys (h : Reordered (.mapping m) (.mapping m')) :
    m.keys.Nodup ∧ m'.keys.Nodup := by
  cases h with
  | mapping distinct keys _ => exact ⟨distinct, keys.nodup_iff.mp distinct⟩

/-- Reordered mappings are of the same size. -/
theorem size_eq (h : Reordered (.mapping m) (.mapping m')) : m.size = m'.size := by
  have hlength := h.keys_perm.length_eq
  rwa [OrderedMap.keys, OrderedMap.keys, List.length_map, List.length_map] at hlength

/-- Where one of the mappings holds a value, the other one does too. -/
theorem get? (h : Reordered (.mapping m) (.mapping m')) (key : String) :
    (m.get? key = none ∧ m'.get? key = none) ∨
      ∃ v v', m.get? key = some v ∧ m'.get? key = some v' ∧ Reordered v v' := by
  cases h with
  | mapping _ keys values =>
    by_cases hkey : key ∈ m.keys
    · obtain ⟨v, hv⟩ := OrderedMap.mem_keys_iff.mp hkey
      obtain ⟨v', hv'⟩ := OrderedMap.mem_keys_iff.mp (keys.mem_iff.mp hkey)
      exact Or.inr ⟨v, v', hv, hv', values key v v' hv hv'⟩
    · have hkey' : key ∉ m'.keys := fun hmem => hkey (keys.mem_iff.mpr hmem)
      exact Or.inl ⟨OrderedMap.get?_eq_none_iff.mpr hkey, OrderedMap.get?_eq_none_iff.mpr hkey'⟩

end Reordered

/-- Entries are all in a mapping if each of them is found there with the same value. -/
theorem sameEntries_iff {entries : List (String × PlainValue)} :
    sameEntries entries m = true ↔
      ∀ entry ∈ entries, ∃ w, m.get? entry.1 = some w ∧ entry.2.same w = true := by
  induction entries with
  | nil => simp [sameEntries]
  | cons entry entries ih =>
    rw [sameEntries, Bool.and_eq_true, ih, List.forall_mem_cons]
    refine and_congr ?_ Iff.rfl
    cases m.get? entry.1 <;> simp

/-- Two mappings are the same if they are of one size and one has all entries of the other. -/
theorem same_mapping_iff :
    (PlainValue.mapping m).same (.mapping m') = true ↔ m.size = m'.size ∧
      ∀ entry ∈ m.toList, ∃ w, m'.get? entry.1 = some w ∧ entry.2.same w = true := by
  obtain ⟨entries⟩ := m
  rw [same, Bool.and_eq_true, beq_iff_eq, sameEntries_iff]
  rfl

/-- With distinct keys, the entries of a mapping are its look-ups. -/
theorem same_mapping_iff_of_nodup (hm : m.keys.Nodup) :
    (PlainValue.mapping m).same (.mapping m') = true ↔ m.size = m'.size ∧
      ∀ key v, m.get? key = some v → ∃ w, m'.get? key = some w ∧ v.same w = true := by
  have hmem : ∀ key v, (key, v) ∈ m.toList ↔ m.get? key = some v := fun key v =>
    ⟨OrderedMap.get?_of_mem hm, OrderedMap.mem_of_get?⟩
  rw [same_mapping_iff, Prod.forall]
  simp only [hmem]

/-- Equality does not see the order of keys on its left side. -/
theorem Reordered.same_left (h : Reordered v v') (w : PlainValue) : v.same w = v'.same w := by
  induction h generalizing w with
  | text s => rfl
  | @mapping m m' distinct keys values ih =>
    have hm : Reordered (.mapping m) (.mapping m') := .mapping distinct keys values
    cases w with
    | text s => simp only [same]
    | mapping n =>
      rw [Bool.eq_iff_iff, same_mapping_iff_of_nodup hm.nodup_keys.1,
        same_mapping_iff_of_nodup hm.nodup_keys.2, hm.size_eq]
      refine and_congr_right fun _ => forall_congr' fun key => ?_
      obtain ⟨hnone, hnone'⟩ | ⟨v, v', hv, hv', -⟩ := hm.get? key
      · simp [hnone, hnone']
      · simp [hv, hv', ih key v v' hv hv']

/-- Equality does not see the order of keys on its right side. -/
theorem Reordered.same_right (h : Reordered v v') (w : PlainValue) : w.same v = w.same v' := by
  induction h generalizing w with
  | text s => rfl
  | @mapping m m' distinct keys values ih =>
    have hm : Reordered (.mapping m) (.mapping m') := .mapping distinct keys values
    cases w with
    | text s => simp only [same]
    | mapping n =>
      rw [Bool.eq_iff_iff, same_mapping_iff, same_mapping_iff, hm.size_eq]
      refine and_congr_right fun _ => forall_congr' fun entry => imp_congr_right fun _ => ?_
      obtain ⟨hnone, hnone'⟩ | ⟨v, v', hv, hv', -⟩ := hm.get? entry.1
      · simp [hnone, hnone']
      · simp [hv, hv', ih entry.1 v v' hv hv']

end PlainValue

/-! ## Values of rules -/

namespace RuleValue

variable {a a' b b' : RuleValue}

/-- Two values are equal, or mappings with their keys in another order. -/
inductive Reordered : RuleValue → RuleValue → Prop
  | refl (a : RuleValue) : Reordered a a
  | map {m m' : PlainMap} (entries : PlainValue.Reordered (.mapping m) (.mapping m')) :
      Reordered (.map m) (.map m')

/-- Reordered plain values are reordered values of rules. -/
theorem reordered_ofPlain {v v' : PlainValue} (h : PlainValue.Reordered v v') :
    Reordered (.ofPlain v) (.ofPlain v') := by
  cases h with
  | text s => exact .refl _
  | mapping distinct keys values => exact .map (.mapping distinct keys values)

namespace Reordered

/-- Whether a value counts as true does not depend on the order of keys. -/
theorem isTruthy_eq (h : Reordered a a') : a.isTruthy = a'.isTruthy := by
  cases h with
  | refl => rfl
  | @map m m' entries =>
    have hsize := entries.size_eq
    simp only [OrderedMap.size] at hsize
    rw [isTruthy, isTruthy, OrderedMap.isEmpty, OrderedMap.isEmpty, Bool.eq_iff_iff]
    simp [← List.length_eq_zero_iff, hsize]

/-- Equality does not depend on the order of keys. -/
theorem equals_eq (ha : Reordered a a') (hb : Reordered b b') : a.equals b = a'.equals b' := by
  -- first the keys on the left are reordered, and then those on the right
  have hleft : a.equals b = a'.equals b := by
    cases ha with
    | refl => rfl
    | map entries =>
      cases b with
      | map n => exact entries.same_left (.mapping n)
      | _ => rfl
  have hright : a'.equals b = a'.equals b' := by
    cases hb with
    | refl => rfl
    | map entries =>
      cases a' with
      | map n => exact entries.same_right (.mapping n)
      | _ => rfl
  exact hleft.trans hright

/-- Only integers and strings are ordered, and these have no keys. -/
theorem order_agree (op : CompareOp) (ha : Reordered a a') (hb : Reordered b b') :
    Except.Agree Eq (order op a b) (order op a' b') := by
  cases ha with
  | refl =>
    cases hb with
    | refl => exact .refl (fun _ => rfl) _
    | map entries => cases a <;> exact .error _ _
  | map entries => exact .error _ _

/-- Nor does whether a key is in a mapping. -/
theorem isIn_agree (ha : Reordered a a') (hb : Reordered b b') :
    Except.Agree Eq (isIn a b) (isIn a' b') := by
  cases ha with
  | refl =>
    cases hb with
    | refl => exact .refl (fun _ => rfl) _
    | map entries =>
      cases a with
      | str key =>
        refine .ok ?_
        rw [OrderedMap.contains, OrderedMap.contains]
        -- a key is in both mappings or in neither
        obtain ⟨hnone, hnone'⟩ | ⟨v, v', hv, hv', -⟩ := entries.get? key
        · rw [hnone, hnone']
        · rw [hv, hv']
          rfl
      | _ => exact .error _ _
  | map entries =>
    cases hb with
    | refl => cases b <;> exact .error _ _
    | map entries' => exact .error _ _

/-- No comparison depends on the order of keys. -/
theorem compare_agree (op : CompareOp) (ha : Reordered a a') (hb : Reordered b b') :
    Except.Agree Eq (compare op a b) (compare op a' b') := by
  cases op with
  | eq => exact .ok (equals_eq ha hb)
  | ne => exact .ok (congrArg (!·) (equals_eq ha hb))
  | lt => exact (order_agree .lt ha hb).map fun _ _ => congrArg (· == Ordering.lt)
  | le => exact (order_agree .le ha hb).map fun _ _ => congrArg (· != Ordering.gt)
  | gt => exact (order_agree .gt ha hb).map fun _ _ => congrArg (· == Ordering.gt)
  | ge => exact (order_agree .ge ha hb).map fun _ _ => congrArg (· != Ordering.lt)
  | isIn => exact isIn_agree ha hb
  | notIn => exact (isIn_agree ha hb).map fun _ _ => congrArg (!·)

/-- Subscripts lead to the same values up to the order of keys. -/
theorem subscript_agree (ha : Reordered a a') (hb : Reordered b b') :
    Except.Agree Reordered (subscript a b) (subscript a' b') := by
  cases ha with
  | refl =>
    cases hb with
    | refl => exact .refl .refl _
    | map entries => cases a <;> exact .error _ _
  | map entries =>
    cases hb with
    | map entries' => exact .error _ _
    | refl =>
      cases b with
      | str key =>
        rw [subscript, subscript]
        obtain ⟨hnone, hnone'⟩ | ⟨v, v', hv, hv', hreordered⟩ := entries.get? key
        · rw [hnone, hnone']
          exact .error _ _
        · rw [hv, hv']
          exact .ok (reordered_ofPlain hreordered)
      | _ => exact .error _ _

end Reordered

end RuleValue

/-! ## Predicates -/

/-- A predicate does the same whatever the order of keys in its arguments and in the value under
verification. -/
def Predicate.Unordered (predicate : Predicate) : Prop :=
  ∀ val val' args args', RuleValue.Reordered val val' →
    List.Forall₂ RuleValue.Reordered args args' →
    Except.Agree RuleValue.Reordered (predicate val args) (predicate val' args')

namespace Predicate

/-- Matching a pattern sees no keys. -/
theorem unordered_re (engine : PatternEngine) : Unordered (re engine) := by
  intro val val' args args' hval hargs
  cases hargs with
  | nil => exact .error _ _
  | cons harg hargs =>
    cases hargs with
    | cons _ _ => exact .error _ _
    | nil =>
      cases harg with
      | map entries => exact .error _ _
      | refl =>
        cases hval with
        | refl => exact .refl .refl _
        | map entries => unfold re; cases ‹RuleValue› <;> exact .error _ _

/-- A predicate that fails sees no keys. -/
theorem unordered_fail : Unordered fail := by
  intro val val' args args' _ hargs
  cases hargs with
  | nil => exact .error _ _
  | cons harg hargs => cases hargs <;> exact .error _ _

/-- A choice gives the same value up to the order of keys. -/
theorem unordered_cond : Unordered cond := by
  intro val val' args args' _ hargs
  match hargs with
  | .nil => exact .error _ _
  | .cons _ .nil => exact .error _ _
  | .cons _ (.cons _ (.cons _ _)) => exact .error _ _
  | .cons hcondition (.cons _ .nil) =>
    rw [cond, cond, hcondition.isTruthy_eq]
    split
    · exact .ok (.refl _)
    · exact .error _ _

end Predicate

namespace PredicateRegistry

/-- All predicates of a registry do the same whatever the order of keys. -/
def Unordered (registry : PredicateRegistry) : Prop :=
  ∀ name predicate, registry.get? name = some predicate → predicate.Unordered

/-- One more predicate that sees no order leaves a registry so. -/
theorem Unordered.register {registry : PredicateRegistry} (h : registry.Unordered) (name : String)
    {predicate : Predicate} (hpredicate : predicate.Unordered) :
    (registry.register name predicate).Unordered := by
  intro other found hfound
  rw [get?, PredicateRegistry.register, OrderedMap.get?_insert] at hfound
  split at hfound
  · cases hfound
    exact hpredicate
  · exact h other found hfound

/-- The predicates that are built in see no order. -/
theorem unordered_builtin (engine : PatternEngine) : (builtin engine).Unordered := by
  have hempty : empty.Unordered := fun _ _ h => absurd h nofun
  exact ((hempty.register "re" (Predicate.unordered_re engine)).register "fail"
    Predicate.unordered_fail).register "cond" Predicate.unordered_cond

end PredicateRegistry

/-! ## Expressions -/

/-- What the names of a rule stand for differs in the order of keys only, and no predicate sees
that. -/
structure RuleEnv.Reordered (env env' : RuleEnv) : Prop where
  val : RuleValue.Reordered env.val env'.val
  cnf : RuleValue.Reordered env.cnf env'.cnf
  registry : env.registry = env'.registry
  unordered : env.registry.Unordered

namespace Expr

variable {env env' : RuleEnv}

/-- A name stands for the same value up to the order of keys. -/
theorem lookup_agree (h : env.Reordered env') (word : String) :
    Except.Agree RuleValue.Reordered (lookup env word) (lookup env' word) := by
  unfold lookup
  split
  · exact .ok h.val
  · exact .ok h.cnf
  · exact .error _ _

mutual

/-- An expression has a value in both environments or in none, and the two values differ at most in
the order of keys. -/
theorem evaluate_agree (h : env.Reordered env') :
    ∀ e : Expr, Except.Agree RuleValue.Reordered (e.evaluate env) (e.evaluate env')
  | .literal v => .ok (.refl v)
  | .name word => (lookup_agree h word).mapError _ _
  | .call callee args => by
    rw [evaluate, evaluate, ← h.registry]
    cases hcallee : env.registry.get? callee with
    | none => exact .error _ _
    | some predicate =>
      exact (evaluateArgs_agree h args).bind fun vs vs' hvs =>
        h.unordered callee predicate hcallee _ _ vs vs' h.val hvs
  | .subscript target index =>
    (evaluate_agree h target).bind fun _ _ htarget =>
      (evaluate_agree h index).bind fun _ _ hindex =>
        (htarget.subscript_agree hindex).mapError _ _
  | .not e => (evaluate_agree h e).bind fun v v' hv => by
    rw [hv.isTruthy_eq]
    exact .ok (.refl _)
  | .and left right => (evaluate_agree h left).bind fun v v' hv => by
    rw [hv.isTruthy_eq]
    split
    · exact evaluate_agree h right
    · exact .ok hv
  | .or left right => (evaluate_agree h left).bind fun v v' hv => by
    rw [hv.isTruthy_eq]
    split
    · exact .ok hv
    · exact evaluate_agree h right
  | .compare first rest =>
    (evaluate_agree h first).bind fun _ _ hfirst => evaluateChain_agree h hfirst rest

/-- So do the values of arguments. -/
theorem evaluateArgs_agree (h : env.Reordered env') :
    ∀ args : List Expr, Except.Agree (List.Forall₂ RuleValue.Reordered)
      (evaluateArgs env args) (evaluateArgs env' args)
  | [] => .ok .nil
  | arg :: args =>
    (evaluate_agree h arg).bind fun _ _ hv =>
      (evaluateArgs_agree h args).bind fun _ _ hvs => .ok (.cons hv hvs)

/-- So do the values of chains. -/
theorem evaluateChain_agree (h : env.Reordered env') {left left' : RuleValue}
    (hleft : RuleValue.Reordered left left') :
    ∀ rest : List (CompareOp × Expr), Except.Agree RuleValue.Reordered
      (evaluateChain env left rest) (evaluateChain env' left' rest)
  | [] => .ok (.refl _)
  | (op, e) :: rest =>
    (evaluate_agree h e).bind fun _ _ hright =>
      ((hleft.compare_agree op hright).mapError _ _).bind fun holds holds' hholds => by
        rw [hholds]
        split
        · exact evaluateChain_agree h hright rest
        · exact .ok (.refl _)

end

end Expr

end LayeredConfig
