import LayeredConfig.Pattern.Standard
import LayeredConfig.Proofs.Schema.Conformance
import Mathlib.Data.List.Forall2

/-!
# Appending optional rules

Rules are tried in order, so a rule at the end of a section takes a key only if no other rule there
does. Appending rules that are not mandatory, to any sections of a schema, keeps all configurations
valid that were valid before: a key that had a first rule has the same one, at the same index, and
no further rule needs to be the first one of some key.
-/

namespace LayeredConfig

mutual

/-- The rules of a section, with optional rules appended to them and to the rules of sections in
it. -/
inductive RuleSet.ExtendedBy : RuleSet → RuleSet → Prop
  | intro {path : KeyPath} {history : Provenance} {rules kept added : List KeyRule}
      (inside : List.Forall₂ KeyRule.ExtendedBy rules kept)
      (optional : ∀ rule ∈ added, rule.mandatory = false) :
      RuleSet.ExtendedBy { path, history, rules } { path, history, rules := kept ++ added }

/-- A rule, with optional rules appended to those of its section. -/
inductive KeyRule.ExtendedBy : KeyRule → KeyRule → Prop
  | intro {path : KeyPath} {pattern : CompiledPattern} {mandatory : Bool} {body body' : RuleBody}
      {history : Provenance} (inside : RuleBody.ExtendedBy body body') :
      KeyRule.ExtendedBy { path, pattern, mandatory, body, history }
        { path, pattern, mandatory, body := body', history }

/-- What a rule requires, with optional rules appended if it requires a section. -/
inductive RuleBody.ExtendedBy : RuleBody → RuleBody → Prop
  | value (rule : Rule) : RuleBody.ExtendedBy (.value rule) (.value rule)
  | keys {rules rules' : RuleSet} (inside : RuleSet.ExtendedBy rules rules') :
      RuleBody.ExtendedBy (.keys rules) (.keys rules')

end

namespace KeyRule.ExtendedBy

variable {rule rule' : KeyRule}

/-- Whether a rule is mandatory does not change. -/
theorem mandatory_eq (h : rule.ExtendedBy rule') : rule'.mandatory = rule.mandatory := by
  cases h with
  | intro inside => rfl

/-- What the rule requires is extended along with it. -/
theorem body (h : rule.ExtendedBy rule') : rule.body.ExtendedBy rule'.body := by
  cases h with
  | intro inside => exact inside

/-- A rule for scalars is left as it is. -/
theorem body_eq_value {value : Rule} (h : rule.ExtendedBy rule')
    (hbody : rule.body = .value value) : rule'.body = .value value := by
  have hbodies := h.body
  rw [hbody] at hbodies
  generalize rule'.body = body' at hbodies ⊢
  cases hbodies with
  | value => rfl

/-- A rule that requires a section has required one before. -/
theorem exists_of_body_eq_keys {inner' : RuleSet} (h : rule.ExtendedBy rule')
    (hbody' : rule'.body = .keys inner') :
    ∃ inner, rule.body = .keys inner ∧ inner.ExtendedBy inner' := by
  have hbodies := h.body
  rw [hbody'] at hbodies
  generalize rule.body = body at hbodies ⊢
  cases hbodies with
  | keys inside => exact ⟨_, rfl, inside⟩

/-- A rule matches the names and the shapes that it has matched before. -/
theorem matches_iff (h : rule.ExtendedBy rule') (key : String) (value : Value) :
    (rule'.pattern.isMatch key = true ∧ rule'.isForSections = value.isSubsection) ↔
      (rule.pattern.isMatch key = true ∧ rule.isForSections = value.isSubsection) := by
  cases h with
  | intro inside => cases inside <;> exact Iff.rfl

end KeyRule.ExtendedBy

namespace RuleSet

variable {rules rules' : RuleSet} {rule rule' : KeyRule} {registry : PredicateRegistry}
  {config : Section} {key : String} {value : Value} {i : Nat}

namespace ExtendedBy

/-- The rules that were there are still there, at the same indices. -/
theorem getElem? (h : rules.ExtendedBy rules') (hrule : rules.rules[i]? = some rule) :
    ∃ rule', rules'.rules[i]? = some rule' ∧ rule.ExtendedBy rule' := by
  cases h with
  | @intro path history list kept added inside optional =>
    obtain ⟨hi, rfl⟩ := List.getElem?_eq_some_iff.mp hrule
    obtain ⟨hlength, hinside⟩ := List.forall₂_iff_get.mp inside
    have hi' : i < kept.length := hlength ▸ hi
    refine ⟨kept[i], ?_, hinside i hi hi'⟩
    rw [List.getElem?_append_left hi', List.getElem?_eq_getElem hi']

/-- A rule was there before, or it is behind those that were, and optional. -/
theorem of_getElem? (h : rules.ExtendedBy rules') (hrule' : rules'.rules[i]? = some rule') :
    (∃ rule, rules.rules[i]? = some rule ∧ rule.ExtendedBy rule') ∨ rule'.mandatory = false := by
  cases h with
  | @intro path history list kept added inside optional =>
    obtain ⟨hlength, hinside⟩ := List.forall₂_iff_get.mp inside
    rcases Nat.lt_or_ge i list.length with hi | hi
    · have hi' : i < kept.length := hlength ▸ hi
      rw [List.getElem?_append_left hi', List.getElem?_eq_getElem hi'] at hrule'
      obtain rfl := Option.some.inj hrule'
      exact Or.inl ⟨list[i], List.getElem?_eq_getElem hi, hinside i hi hi'⟩
    · rw [List.getElem?_append_right (hlength ▸ hi)] at hrule'
      exact Or.inr (optional rule' (List.mem_of_getElem? hrule'))

/-- A key that has a first rule keeps it. -/
theorem firstMatch (h : rules.ExtendedBy rules') (hfirst : rules.FirstMatch key value i rule) :
    ∃ rule', rules'.FirstMatch key value i rule' ∧ rule.ExtendedBy rule' := by
  obtain ⟨rule', hindex', hrule⟩ := h.getElem? hfirst.index
  obtain ⟨hname', hshape'⟩ := (hrule.matches_iff key value).mpr ⟨hfirst.name, hfirst.shape⟩
  refine ⟨rule', ⟨hindex', hname', hshape', fun j earlier' hj hearlier' => ?_⟩, hrule⟩
  -- what stands before the first rule has been there before
  have hlength := (List.getElem?_eq_some_iff.mp hfirst.index).1
  obtain ⟨earlier'', hget, hearlier⟩ :=
    h.getElem? (List.getElem?_eq_getElem (Nat.lt_trans hj hlength))
  obtain rfl := Option.some.inj (hearlier'.symm.trans hget)
  rw [hearlier.matches_iff]
  exact hfirst.first j _ hj (List.getElem?_eq_getElem (Nat.lt_trans hj hlength))

/-- Where a key has a first rule, the first rule among more rules is the same one. -/
theorem of_firstMatch (h : rules.ExtendedBy rules')
    (hmatched : ∃ j earlier, rules.FirstMatch key value j earlier)
    (hfirst' : rules'.FirstMatch key value i rule') :
    ∃ rule, rules.FirstMatch key value i rule ∧ rule.ExtendedBy rule' := by
  obtain ⟨j, rule, hfirst⟩ := hmatched
  obtain ⟨rule'', hfirst'', hrule⟩ := h.firstMatch hfirst
  obtain ⟨rfl, rfl⟩ := hfirst''.unique hfirst'
  exact ⟨rule, hfirst, hrule⟩

end ExtendedBy

/-- A rule that accepts a scalar still does. -/
theorem Accepts.extendedBy {s : Scalar} (h : Accepts registry config rule s)
    (hrule : rule.ExtendedBy rule') : Accepts registry config rule' s := by
  obtain ⟨body, v, hbody, hv, htrue⟩ := h
  exact ⟨body, v, hrule.body_eq_value hbody, hv, htrue⟩

/-- What conforms to some rules conforms to them with optional ones behind them. -/
theorem Conforms.extendedBy (h : Conforms registry rules config)
    (hrules : rules.ExtendedBy rules') : Conforms registry rules' config := by
  induction h generalizing rules' with
  | @intro rules config matched scalar subsection mandatory ih =>
    refine .intro ?_ ?_ ?_ ?_
    · intro key e hmem
      obtain ⟨i, rule, hfirst⟩ := matched key e hmem
      obtain ⟨rule', hfirst', -⟩ := hrules.firstMatch hfirst
      exact ⟨i, rule', hfirst'⟩
    · intro key s attrs i rule' hmem hfirst'
      obtain ⟨rule, hfirst, hrule⟩ := hrules.of_firstMatch (matched key _ hmem) hfirst'
      exact (scalar key s attrs i rule hmem hfirst).extendedBy hrule
    · intro key sub attrs i rule' inner' hmem hfirst' hbody'
      obtain ⟨rule, hfirst, hrule⟩ := hrules.of_firstMatch (matched key _ hmem) hfirst'
      obtain ⟨inner, hbody, hinner⟩ := hrule.exists_of_body_eq_keys hbody'
      exact ih key sub attrs i rule inner hmem hfirst hbody hinner
    · intro i rule' hget' hmandatory'
      -- a rule that is mandatory is not one of those appended
      rcases hrules.of_getElem? hget' with ⟨rule, hget, hrule⟩ | hoptional
      · obtain ⟨key, e, hmem, hfirst⟩ :=
          mandatory i rule hget (hrule.mandatory_eq.symm.trans hmandatory')
        obtain ⟨rule'', hfirst', -⟩ := hrules.firstMatch hfirst
        obtain rfl := Option.some.inj (hget'.symm.trans hfirst'.index)
        exact ⟨key, e, hmem, hfirst'⟩
      · rw [hoptional] at hmandatory'
        cases hmandatory'

/-- Appending optional rules at the end of sections of a schema, at any depth, makes no valid
configuration invalid. -/
theorem verify_of_extendedBy (hrules : rules.ExtendedBy rules') (registry : PredicateRegistry)
    (config : Section) (file : String) (hok : rules.verify registry config file = .ok ()) :
    rules'.verify registry config file = .ok () :=
  verifySection_eq_ok_iff_conforms.mpr
    ((verifySection_eq_ok_iff_conforms.mp hok).extendedBy hrules)

/-- A rule for the keys that match `key`. -/
def ruleFor (key : String) (mandatory : Bool) (body : RuleBody) : KeyRule :=
  { path := { segments := [key] }
    pattern := (keyPattern .standard key).toOption.getD { isMatch := fun _ => false }
    mandatory, body, history := .ofOrigin (.ofFile "schema") }

/-- The rules of a section of a schema. -/
def ruleSetOf (rules : List KeyRule) : RuleSet :=
  { path := {}, history := .ofOrigin (.ofFile "schema"), rules }

/-- A rule that asks for the text `80`. -/
def port : KeyRule :=
  ruleFor "po.t" true
    (.value { source := "VAL == '80'"
              expr := .compare (.name "VAL") [(.eq, .literal (.str "80"))] })

/-- A rule that refuses whatever key gets to it. -/
def refusal : KeyRule :=
  ruleFor ".*" false (.value { source := "False", expr := .literal (.bool false) })

/-- Rules for a server with a port. -/
def strict : RuleSet :=
  ruleSetOf [ruleFor "server" true (.keys (ruleSetOf [port]))]

/-- The same rules with refusals behind them, in both sections. -/
def refusing : RuleSet :=
  ruleSetOf [ruleFor "server" true (.keys (ruleSetOf [port, refusal, refusal])), refusal]

/-- A configuration of a server with a port. -/
def serving : Section :=
  ⟨none, ⟨[
    ("server", ⟨.subsection ⟨some "server", ⟨[("port", ⟨.scalar (.text "80"), {}⟩)]⟩⟩, {}⟩)]⟩⟩

/-- The rules that are appended refuse whatever gets to them, in both sections, and nothing does. -/
theorem verify_of_extendedBy_refusing :
    strict.verify (.builtin .standard) serving "config" = .ok () ∧ strict.ExtendedBy refusing ∧
      refusing.verify (.builtin .standard) serving "config" = .ok () := by
  have hok : strict.verify (.builtin .standard) serving "config" = .ok () := by decide +kernel
  have hserver : (ruleSetOf [port]).ExtendedBy (ruleSetOf [port, refusal, refusal]) :=
    .intro (.cons (.intro (.value _)) .nil) (by decide)
  have hrules : strict.ExtendedBy refusing :=
    .intro (.cons (.intro (.keys hserver)) .nil) (by decide)
  exact ⟨hok, hrules, verify_of_extendedBy hrules (.builtin .standard) serving "config" hok⟩

end RuleSet

end LayeredConfig
