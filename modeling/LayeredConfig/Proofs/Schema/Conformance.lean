import LayeredConfig.Proofs.Except
import LayeredConfig.Proofs.Section.Paths
import LayeredConfig.Schema.Verify

/-!
# Conforming to a schema

`Conforms` says what a schema asks of a configuration, without the order in which keys are looked
at, the list of rules that have been matched so far, or an error: each key has a first rule, the
value of the key satisfies it, and each mandatory rule is the first one of some key. Verification
answers exactly this question (`verify_eq_ok_iff_conforms`).
-/

namespace LayeredConfig.RuleSet

variable {rules : RuleSet} {registry : PredicateRegistry} {config sub : Section} {path : KeyPath}
  {history : Provenance} {cnf : RuleValue} {key : String} {value : Value} {rule rule' : KeyRule}
  {i j : Nat} {entries : List (String × Entry)} {matched : List Nat}

/-! ## The first rule for a key -/

/-- The rule at index `i` is the first one, in the order of the schema, that matches both the name
of a key and its shape. -/
structure FirstMatch (rules : RuleSet) (key : String) (value : Value) (i : Nat) (rule : KeyRule) :
    Prop where
  index : rules.rules[i]? = some rule
  name : rule.pattern.isMatch key = true
  shape : rule.isForSections = value.isSubsection
  first : ∀ j earlier, j < i → rules.rules[j]? = some earlier →
    ¬ (earlier.pattern.isMatch key = true ∧ earlier.isForSections = value.isSubsection)

/-- A rule matches an entry by the name of its key and by its shape. -/
theorem matchesEntry_iff : rule.matchesEntry key value = true ↔
    rule.pattern.isMatch key = true ∧ rule.isForSections = value.isSubsection := by
  simp [KeyRule.matchesEntry]

/-- The rule that is found is the first one that matches. -/
theorem find?_eq_some_iff : rules.find? key value = some (rule, i) ↔
    rules.FirstMatch key value i rule := by
  rw [find?, List.find?_eq_some_iff_getElem]
  constructor
  · rintro ⟨hmatch, n, hn, hget, hfirst⟩
    rw [List.getElem_zipIdx, Prod.mk.injEq, Nat.zero_add] at hget
    obtain ⟨hrule, rfl⟩ := hget
    obtain ⟨hname, hshape⟩ := matchesEntry_iff.mp hmatch
    refine ⟨List.getElem?_eq_some_iff.mpr ⟨by simpa using hn, hrule⟩, hname, hshape, ?_⟩
    intro j earlier hj hget hmatch
    obtain ⟨hj', rfl⟩ := List.getElem?_eq_some_iff.mp hget
    -- an earlier match would have been found before
    have hno := hfirst j hj
    rw [List.getElem_zipIdx] at hno
    simp [matchesEntry_iff.mpr hmatch] at hno
  · intro h
    obtain ⟨hi, hrule⟩ := List.getElem?_eq_some_iff.mp h.index
    refine ⟨matchesEntry_iff.mpr ⟨h.name, h.shape⟩, i, by simpa using hi, ?_, ?_⟩
    · rw [List.getElem_zipIdx, hrule, Nat.zero_add]
    · intro j hj
      have hno := h.first j _ hj (List.getElem?_eq_getElem (Nat.lt_trans hj hi))
      rw [List.getElem_zipIdx, Bool.not_eq_true']
      rw [← matchesEntry_iff, Bool.not_eq_true] at hno
      exact hno

/-- There is only one first match. -/
theorem FirstMatch.unique (h : rules.FirstMatch key value i rule)
    (h' : rules.FirstMatch key value j rule') : i = j ∧ rule = rule' := by
  have heq := (find?_eq_some_iff.mpr h).symm.trans (find?_eq_some_iff.mpr h')
  cases heq
  exact ⟨rfl, rfl⟩

/-! ## Conformance -/

/-- A rule for scalars accepts a scalar of the section `config`: with `VAL` bound to its text and
`CNF` to the section as a plain mapping, the expression has a value, and that counts as true. -/
def Accepts (registry : PredicateRegistry) (config : Section) (rule : KeyRule) (s : Scalar) :
    Prop :=
  ∃ body v, rule.body = .value body ∧
    body.evaluate { val := .str s.render, cnf := .map config.toPlain, registry } = .ok v ∧
    v.isTruthy = true

/-- What a set of rules asks of a section. -/
inductive Conforms (registry : PredicateRegistry) : RuleSet → Section → Prop
  | intro {rules : RuleSet} {config : Section}
      (matched : ∀ key e, (key, e) ∈ config.entries.toList →
        ∃ i rule, rules.FirstMatch key e.value i rule)
      (scalar : ∀ key s attrs i rule, (key, ⟨.scalar s, attrs⟩) ∈ config.entries.toList →
        rules.FirstMatch key (.scalar s) i rule → Accepts registry config rule s)
      (subsection : ∀ key sub attrs i rule inner,
        (key, ⟨.subsection sub, attrs⟩) ∈ config.entries.toList →
        rules.FirstMatch key (.subsection sub) i rule → rule.body = .keys inner →
        Conforms registry inner sub)
      (mandatory : ∀ i rule, rules.rules[i]? = some rule → rule.mandatory = true →
        ∃ key e, (key, e) ∈ config.entries.toList ∧ rules.FirstMatch key e.value i rule) :
      Conforms registry rules config

/-- What a rule asks of the value of a key of the section `config`. -/
def Satisfies (registry : PredicateRegistry) (config : Section) (rule : KeyRule) : Value → Prop
  | .scalar s => Accepts registry config rule s
  | .subsection sub => ∃ inner, rule.body = .keys inner ∧ Conforms registry inner sub

/-- A key of the section `config` has a first rule, and its value satisfies it. -/
def Admits (registry : PredicateRegistry) (rules : RuleSet) (config : Section) (key : String)
    (value : Value) : Prop :=
  ∃ i rule, rules.FirstMatch key value i rule ∧ Satisfies registry config rule value

/-- The rule for a section has rules for its keys. -/
theorem FirstMatch.exists_keys (h : rules.FirstMatch key (.subsection sub) i rule) :
    ∃ inner, rule.body = .keys inner := by
  have hshape := h.shape
  cases hbody : rule.body with
  | keys inner => exact ⟨inner, rfl⟩
  | value body => simp [KeyRule.isForSections, hbody] at hshape

/-- The rule for a scalar has an expression for its text. -/
theorem FirstMatch.exists_value {s : Scalar} (h : rules.FirstMatch key (.scalar s) i rule) :
    ∃ body, rule.body = .value body := by
  have hshape := h.shape
  cases hbody : rule.body with
  | value body => exact ⟨body, rfl⟩
  | keys inner => simp [KeyRule.isForSections, hbody] at hshape

/-- A section conforms exactly if each of its keys is admitted and each mandatory rule is the first
one for some key. -/
theorem conforms_iff_admits : Conforms registry rules config ↔
    (∀ key e, (key, e) ∈ config.entries.toList → Admits registry rules config key e.value) ∧
      ∀ i rule, rules.rules[i]? = some rule → rule.mandatory = true →
        ∃ key e, (key, e) ∈ config.entries.toList ∧ rules.FirstMatch key e.value i rule := by
  constructor
  · rintro ⟨matched, scalar, subsection, mandatory⟩
    refine ⟨fun key e hmem => ?_, mandatory⟩
    obtain ⟨i, rule, hmatch⟩ := matched key e hmem
    obtain ⟨value, attrs⟩ := e
    refine ⟨i, rule, hmatch, ?_⟩
    cases value with
    | scalar s => exact scalar key s attrs i rule hmem hmatch
    | subsection sub =>
      obtain ⟨inner, hbody⟩ := hmatch.exists_keys
      exact ⟨inner, hbody, subsection key sub attrs i rule inner hmem hmatch hbody⟩
  · rintro ⟨hadmits, mandatory⟩
    refine .intro (fun key e hmem => ?_) (fun key s attrs i rule hmem hmatch => ?_)
      (fun key sub attrs i rule inner hmem hmatch hbody => ?_) mandatory
    · obtain ⟨i, rule, hmatch, -⟩ := hadmits key e hmem
      exact ⟨i, rule, hmatch⟩
    · -- the rule that admits the key is its first match, of which there is only one
      obtain ⟨i', rule', hmatch', hsatisfies⟩ := hadmits key _ hmem
      obtain ⟨rfl, rfl⟩ := hmatch.unique hmatch'
      exact hsatisfies
    · obtain ⟨i', rule', hmatch', inner', hbody', hconforms⟩ := hadmits key _ hmem
      obtain ⟨rfl, rfl⟩ := hmatch.unique hmatch'
      cases hbody.symm.trans hbody'
      exact hconforms

/-! ## What the checks of one section come to -/

/-- A text passes against a rule exactly if the rule has a value that counts as true. -/
theorem verifyText_eq_ok_iff {body : Rule} {text : String} :
    verifyText registry path history cnf rule body text = .ok () ↔
      ∃ v, body.evaluate { val := .str text, cnf, registry } = .ok v ∧ v.isTruthy = true := by
  unfold verifyText
  cases body.evaluate { val := .str text, cnf, registry } with
  | error e => simp
  | ok v => by_cases hv : v.isTruthy = true <;> simp [hv]

/-- A scalar passes against its rule exactly if the rule accepts it. -/
theorem verifyValue_scalar_eq_ok_iff {s : Scalar} (h : rules.FirstMatch key (.scalar s) i rule) :
    verifyValue registry path history (.map config.toPlain) rule (.scalar s) = .ok () ↔
      Accepts registry config rule s := by
  obtain ⟨body, hbody⟩ := h.exists_value
  simp only [verifyValue, Accepts, hbody, verifyText_eq_ok_iff]
  constructor
  · rintro ⟨v, hv, htrue⟩
    exact ⟨body, v, rfl, hv, htrue⟩
  · rintro ⟨_, v, ⟨⟩, hv, htrue⟩
    exact ⟨v, hv, htrue⟩

/-- A section passes against its rule exactly if it passes against the rules inside. -/
theorem verifyValue_subsection_eq_ok_iff (h : rules.FirstMatch key (.subsection sub) i rule) :
    verifyValue registry path history cnf rule (.subsection sub) = .ok () ↔
      ∀ inner, rule.body = .keys inner →
        verifySection registry path history inner sub = .ok () := by
  obtain ⟨inner, hbody⟩ := h.exists_keys
  simp [verifyValue, hbody]

/-- No mandatory rule is missing exactly if each of them has matched. -/
theorem verifyMandatory_eq_ok_iff :
    verifyMandatory path history rules matched = .ok () ↔
      ∀ i rule, rules.rules[i]? = some rule → rule.mandatory = true → i ∈ matched := by
  unfold verifyMandatory
  split
  · rename_i hnone
    refine ⟨fun _ i rule hget hmandatory => ?_, fun _ => rfl⟩
    have hmem : (rule, i) ∈ rules.rules.zipIdx := List.mem_zipIdx_iff_getElem?.mpr hget
    simpa [hmandatory] using List.find?_eq_none.mp hnone _ hmem
  · rename_i rule i hsome
    refine ⟨nofun, fun h => ?_⟩
    have hget := List.mem_zipIdx_iff_getElem?.mp (List.mem_of_find?_eq_some hsome)
    have hmissing := List.find?_some hsome
    simp only [Bool.and_eq_true, Bool.not_eq_true'] at hmissing
    have hin := h i rule hget hmissing.1
    simp [hin] at hmissing

/-- What it means that the entry of `key` passes against the rule at index `i`. -/
def Passes (registry : PredicateRegistry) (path : KeyPath) (rules : RuleSet) (cnf : RuleValue)
    (key : String) (e : Entry) (i : Nat) : Prop :=
  ∃ rule, rules.FirstMatch key e.value i rule ∧
    verifyValue registry (path.push key) e.attrs.history cnf rule e.value = .ok ()

/-- Entries pass exactly if the first one and the others do. -/
theorem verifyEntries_cons_eq_ok_iff {e : Entry} :
    verifyEntries registry path rules cnf ((key, e) :: entries) = .ok matched ↔
      ∃ i rest, Passes registry path rules cnf key e i ∧
        verifyEntries registry path rules cnf entries = .ok rest ∧ matched = i :: rest := by
  obtain ⟨value, attrs⟩ := e
  rw [verifyEntries]
  cases hfind : rules.find? key value with
  | none =>
    refine ⟨nofun, ?_⟩
    rintro ⟨i, rest, ⟨rule, hmatch, -⟩, -, -⟩
    rw [find?_eq_some_iff.mpr hmatch] at hfind
    cases hfind
  | some found =>
    obtain ⟨rule, i⟩ := found
    have hmatch := find?_eq_some_iff.mp hfind
    simp only [Except.bind_eq_ok_iff]
    constructor
    · rintro ⟨⟨⟩, hvalue, rest, hrest, heq⟩
      exact ⟨i, rest, ⟨rule, hmatch, hvalue⟩, hrest, (Except.ok.inj heq).symm⟩
    · rintro ⟨i', rest, ⟨rule', hmatch', hvalue⟩, hrest, rfl⟩
      obtain ⟨rfl, rfl⟩ := hmatch.unique hmatch'
      exact ⟨(), hvalue, rest, hrest, rfl⟩

/-- The indices of a successful run belong to the entries, one for each of them. -/
theorem passes_of_verifyEntries
    (h : verifyEntries registry path rules cnf entries = .ok matched) :
    (∀ key e, (key, e) ∈ entries → ∃ i ∈ matched, Passes registry path rules cnf key e i) ∧
      ∀ i ∈ matched, ∃ key e, (key, e) ∈ entries ∧ Passes registry path rules cnf key e i := by
  induction entries generalizing matched with
  | nil =>
    cases h
    exact ⟨nofun, nofun⟩
  | cons entry entries ih =>
    obtain ⟨key₀, e₀⟩ := entry
    obtain ⟨i₀, rest, hpass, hrest, rfl⟩ := verifyEntries_cons_eq_ok_iff.mp h
    obtain ⟨hentries, hindices⟩ := ih hrest
    constructor
    · intro key e hmem
      rcases List.mem_cons.mp hmem with heq | hmem
      · cases heq
        exact ⟨i₀, List.mem_cons_self, hpass⟩
      · obtain ⟨i, hi, hpass⟩ := hentries key e hmem
        exact ⟨i, List.mem_cons_of_mem i₀ hi, hpass⟩
    · intro i hi
      rcases List.mem_cons.mp hi with rfl | hi
      · exact ⟨key₀, e₀, List.mem_cons_self, hpass⟩
      · obtain ⟨key, e, hmem, hpass⟩ := hindices i hi
        exact ⟨key, e, List.mem_cons_of_mem _ hmem, hpass⟩

/-- If every entry passes, the run succeeds. -/
theorem exists_verifyEntries_eq_ok
    (h : ∀ key e, (key, e) ∈ entries → ∃ i, Passes registry path rules cnf key e i) :
    ∃ matched, verifyEntries registry path rules cnf entries = .ok matched := by
  induction entries with
  | nil => exact ⟨[], rfl⟩
  | cons entry entries ih =>
    obtain ⟨key, e⟩ := entry
    obtain ⟨i, hpass⟩ := h key e List.mem_cons_self
    obtain ⟨rest, hrest⟩ := ih fun key e hmem => h key e (List.mem_cons_of_mem _ hmem)
    exact ⟨i :: rest, verifyEntries_cons_eq_ok_iff.mpr ⟨i, rest, hpass, hrest, rfl⟩⟩

/-- A section is accepted when each of its entries passes and each mandatory rule is the first
one of some key. -/
theorem verifySection_eq_ok_iff :
    verifySection registry path history rules config = .ok () ↔
      (∀ key e, (key, e) ∈ config.entries.toList →
        ∃ i, Passes registry path rules (.map config.toPlain) key e i) ∧
      ∀ i rule, rules.rules[i]? = some rule → rule.mandatory = true →
        ∃ key e, (key, e) ∈ config.entries.toList ∧ rules.FirstMatch key e.value i rule := by
  obtain ⟨name, ⟨entries⟩⟩ := config
  simp only [verifySection, Except.bind_eq_ok_iff, verifyMandatory_eq_ok_iff]
  constructor
  · rintro ⟨matched, hmatched, hmandatory⟩
    obtain ⟨hentries, hindices⟩ := passes_of_verifyEntries hmatched
    constructor
    · intro key e hmem
      obtain ⟨i, -, hpass⟩ := hentries key e hmem
      exact ⟨i, hpass⟩
    · intro i rule hget hrule
      obtain ⟨key, e, hmem, rule', hmatch, -⟩ := hindices i (hmandatory i rule hget hrule)
      -- the index was listed for a key, and it is the index of this rule
      obtain rfl : rule = rule' := Option.some.inj (hget.symm.trans hmatch.index)
      exact ⟨key, e, hmem, hmatch⟩
  · rintro ⟨hpass, hmandatory⟩
    obtain ⟨matched, hmatched⟩ := exists_verifyEntries_eq_ok hpass
    refine ⟨matched, hmatched, fun i rule hget hrule => ?_⟩
    obtain ⟨key, e, hmem, hmatch⟩ := hmandatory i rule hget hrule
    obtain ⟨i', hi', rule', hmatch', -⟩ := (passes_of_verifyEntries hmatched).1 key e hmem
    rwa [(hmatch.unique hmatch').1]

/-! ## Verification decides conformance -/

/-- A section passes exactly if it conforms. -/
theorem verifySection_eq_ok_iff_conforms :
    verifySection registry path history rules config = .ok () ↔
      Conforms registry rules config := by
  induction config using Section.nested_induction generalizing path history rules with
  | step config ih =>
    rw [verifySection_eq_ok_iff]
    constructor
    · rintro ⟨hpass, hmandatory⟩
      refine .intro ?_ ?_ ?_ hmandatory
      · intro key e hmem
        obtain ⟨i, rule, hmatch, -⟩ := hpass key e hmem
        exact ⟨i, rule, hmatch⟩
      · intro key s attrs i rule hmem hmatch
        obtain ⟨i', rule', hmatch', hvalue⟩ := hpass key _ hmem
        obtain ⟨rfl, rfl⟩ := hmatch.unique hmatch'
        exact (verifyValue_scalar_eq_ok_iff hmatch).mp hvalue
      · intro key sub attrs i rule inner hmem hmatch hbody
        obtain ⟨i', rule', hmatch', hvalue⟩ := hpass key _ hmem
        obtain ⟨rfl, rfl⟩ := hmatch.unique hmatch'
        exact (ih key sub attrs hmem).mp
          ((verifyValue_subsection_eq_ok_iff hmatch).mp hvalue inner hbody)
    · rintro ⟨hmatched, hscalar, hsubsection, hmandatory⟩
      refine ⟨fun key e hmem => ?_, hmandatory⟩
      -- a key passes against its first rule, and what that means depends on its shape
      obtain ⟨i, rule, hmatch⟩ := hmatched key e hmem
      obtain ⟨value, attrs⟩ := e
      refine ⟨i, rule, hmatch, ?_⟩
      cases value with
      | scalar s =>
        exact (verifyValue_scalar_eq_ok_iff hmatch).mpr (hscalar key s attrs i rule hmem hmatch)
      | subsection sub =>
        refine (verifyValue_subsection_eq_ok_iff hmatch).mpr fun inner hbody => ?_
        exact (ih key sub attrs hmem).mpr
          (hsubsection key sub attrs i rule inner hmem hmatch hbody)

/-- Verification succeeds for exactly the configurations that conform. -/
theorem verify_eq_ok_iff_conforms (rules : RuleSet) (registry : PredicateRegistry)
    (config : Section) (file : String) :
    rules.verify registry config file = .ok () ↔ Conforms registry rules config :=
  verifySection_eq_ok_iff_conforms

end LayeredConfig.RuleSet
