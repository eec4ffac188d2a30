import LayeredConfig.Pattern.Standard
import LayeredConfig.Proofs.Schema.Conformance
import LayeredConfig.Proofs.Schema.Sources

/-!
# What a failed verification points at

Verification goes down into sections as it meets them and stops at the first failure. So the key
that an error names is the first one, in this order, at which the configuration does not conform,
and each kind of error says something about the rules at the path that it names beside it
(`FirstFailure`). Both paths lead to something that has the history which the error shows.
-/

namespace LayeredConfig.RuleSet

variable {engine : PatternEngine} {schema config s sub : Section} {schemaFile file key : String}
  {registry : PredicateRegistry} {rules here inner : RuleSet} {rule : KeyRule}
  {path : KeyPath} {history : Provenance} {cnf : RuleValue} {e : Entry} {v : Scalar}
  {entries before after : List (String × Entry)} {matched : List Nat} {i : Nat}
  {error : VerificationError}

/-! ## First failures -/

/-- Verification gets to the section `s` at a path of the configuration, which has to follow the
rules `here`: in every section on the way, the keys before the one that leads on are admitted, and
`here` are the rules of the first match of the last key. -/
inductive Reaches (registry : PredicateRegistry) (rules : RuleSet) (config : Section) :
    List String → Section → RuleSet → Prop
  | root : Reaches registry rules config [] config rules
  | down {path : List String} {s sub : Section} {here inner : RuleSet} {key : String}
      {attrs : KeyAttrs} {before after : List (String × Entry)} {i : Nat} {rule : KeyRule}
      (above : Reaches registry rules config path s here)
      (split : s.entries.toList = before ++ (key, ⟨.subsection sub, attrs⟩) :: after)
      (admitted : ∀ entry ∈ before, Admits registry here s entry.1 entry.2.value)
      (first : here.FirstMatch key (.subsection sub) i rule) (body : rule.body = .keys inner) :
      Reaches registry rules config (path ++ [key]) sub inner

/-- Why a rule for scalars refuses a scalar of the section `config`. -/
inductive Refuses (registry : PredicateRegistry) (config : Section) (rule : KeyRule) (v : Scalar) :
    VerificationFault → Prop
  | ruleFailed {body : Rule} {w : RuleValue} (body_eq : rule.body = .value body)
      (value : body.evaluate { val := .str v.render, cnf := .map config.toPlain, registry } = .ok w)
      (falsy : w.isTruthy = false) : Refuses registry config rule v .ruleFailed
  | predicateFailed {body : Rule} {message : String} (body_eq : rule.body = .value body)
      (rejected : body.evaluate { val := .str v.render, cnf := .map config.toPlain, registry } =
        .error (.failed message)) : Refuses registry config rule v (.predicateFailed message)
  | predicateError {body : Rule} {fault : RuleFault} (body_eq : rule.body = .value body)
      (invalid : body.evaluate { val := .str v.render, cnf := .map config.toPlain, registry } =
        .error (.invalid fault)) : Refuses registry config rule v (.predicateError fault)

/-- An error is about the first place where the configuration does not conform to the rules, in the
order in which its keys are written and gone down into. -/
inductive FirstFailure (engine : PatternEngine) (schema : Section) (schemaFile : String)
    (registry : PredicateRegistry) (rules : RuleSet) (config : Section)
    (error : VerificationError) : Prop
  /-- No rule of the set to which the error points matches the key. -/
  | noRuleFound {path : List String} {s : Section} {here : RuleSet}
      {before after : List (String × Entry)} {key : String} {e : Entry}
      (fault : error.fault = .noRuleFound)
      (reaches : Reaches registry rules config path s here)
      (split : s.entries.toList = before ++ (key, e) :: after)
      (admitted : ∀ entry ∈ before, Admits registry here s entry.1 entry.2.value)
      (configKey : error.configKey.segments = path ++ [key])
      (found : config.entryAt? error.configKey.segments = some e)
      (ruleKey : error.ruleKey = here.path) (located : here.LocatedIn engine schema schemaFile)
      (unmatched : ∀ rule ∈ here.rules,
        ¬ (rule.pattern.isMatch key = true ∧ rule.isForSections = e.value.isSubsection))
  /-- The rule to which the error points is the first one for the key, and refuses its scalar. -/
  | refused {path : List String} {s : Section} {here : RuleSet}
      {before after : List (String × Entry)} {key : String} {v : Scalar} {attrs : KeyAttrs}
      {i : Nat} {rule : KeyRule} (refuses : Refuses registry s rule v error.fault)
      (reaches : Reaches registry rules config path s here)
      (split : s.entries.toList = before ++ (key, ⟨.scalar v, attrs⟩) :: after)
      (admitted : ∀ entry ∈ before, Admits registry here s entry.1 entry.2.value)
      (configKey : error.configKey.segments = path ++ [key])
      (found : config.entryAt? error.configKey.segments = some ⟨.scalar v, attrs⟩)
      (ruleKey : error.ruleKey = rule.path) (located : rule.LocatedIn engine schema)
      (first : here.FirstMatch key (.scalar v) i rule)
  /-- All keys of the section are admitted, and the rule to which the error points is the first of
  the mandatory ones that are the first match of none of them. -/
  | missingMandatoryKey {path : List String} {s : Section} {here : RuleSet} {i : Nat}
      {rule : KeyRule} (fault : error.fault = .missingMandatoryKey)
      (reaches : Reaches registry rules config path s here)
      (admitted : ∀ entry ∈ s.entries.toList, Admits registry here s entry.1 entry.2.value)
      (configKey : error.configKey.segments = path)
      (found : config.sectionAt? error.configKey.segments = some s)
      (ruleKey : error.ruleKey = rule.path) (located : rule.LocatedIn engine schema)
      (index : here.rules[i]? = some rule) (mandatory : rule.mandatory = true)
      (unmatched : ∀ entry ∈ s.entries.toList, ¬ here.FirstMatch entry.1 entry.2.value i rule)
      (earlier : ∀ j rule', j < i → here.rules[j]? = some rule' → rule'.mandatory = true →
        ∃ entry ∈ s.entries.toList, here.FirstMatch entry.1 entry.2.value j rule')

/-! ## How the checks of one section fail -/

/-- No rule is found for a key just if none matches its name and its shape. -/
theorem find?_eq_none_iff {value : Value} : rules.find? key value = none ↔ ∀ rule ∈ rules.rules,
    ¬ (rule.pattern.isMatch key = true ∧ rule.isForSections = value.isSubsection) := by
  simp only [find?, List.find?_eq_none, Prod.forall, ← matchesEntry_iff]
  constructor
  · intro h rule hrule
    obtain ⟨i, hi⟩ := List.mem_iff_getElem?.mp hrule
    exact h rule i (List.mem_zipIdx_iff_getElem?.mpr hi)
  · exact fun h rule i hmem => h rule (List.mem_of_getElem? (List.mem_zipIdx_iff_getElem?.mp hmem))

/-- A key that passes the check of the loop is admitted by the rules. -/
theorem Passes.admits (h : Passes registry path here (.map s.toPlain) key e i) :
    Admits registry here s key e.value := by
  obtain ⟨rule, hfirst, hvalue⟩ := h
  refine ⟨i, rule, hfirst, ?_⟩
  obtain ⟨value, attrs⟩ := e
  cases value with
  | scalar v => exact (verifyValue_scalar_eq_ok_iff hfirst).mp hvalue
  | subsection sub =>
    obtain ⟨inner, hbody⟩ := hfirst.exists_keys
    have hinner := (verifyValue_subsection_eq_ok_iff hfirst).mp hvalue inner hbody
    exact ⟨inner, hbody, verifySection_eq_ok_iff_conforms.mp hinner⟩

/-- The error of a run over some entries is that of one of them, and those before it pass. -/
theorem exists_split_of_verifyEntries
    (h : verifyEntries registry path here cnf entries = .error error) :
    ∃ before key e after, entries = before ++ (key, e) :: after ∧
      (∀ entry ∈ before, ∃ i, Passes registry path here cnf entry.1 entry.2 i) ∧
      ((here.find? key e.value = none ∧
          error = { fault := .noRuleFound, configKey := path.push key,
                    configHistory := e.attrs.history, ruleKey := here.path,
                    ruleHistory := here.history }) ∨
        ∃ i rule, here.FirstMatch key e.value i rule ∧
          verifyValue registry (path.push key) e.attrs.history cnf rule e.value =
            .error error) := by
  induction entries with
  | nil => cases h
  | cons entry entries ih =>
    obtain ⟨key, value, attrs⟩ := entry
    rw [verifyEntries] at h
    -- the first entry fails, for want of a rule or by its rule, or it passes and the failure is
    -- behind it
    cases hfind : here.find? key value with
    | none =>
      rw [hfind] at h
      cases h
      exact ⟨[], key, ⟨value, attrs⟩, entries, rfl, List.forall_mem_nil _, Or.inl ⟨hfind, rfl⟩⟩
    | some found =>
      obtain ⟨rule, i⟩ := found
      rw [hfind] at h
      have hfirst := find?_eq_some_iff.mp hfind
      rcases Except.bind_eq_error_iff.mp h with hvalue | ⟨⟨⟩, hvalue, h⟩
      · exact ⟨[], key, ⟨value, attrs⟩, entries, rfl, List.forall_mem_nil _,
          Or.inr ⟨i, rule, hfirst, hvalue⟩⟩
      · have hrest : verifyEntries registry path here cnf entries = .error error := by
          rcases Except.bind_eq_error_iff.mp h with hrest | ⟨_, -, hok⟩
          · exact hrest
          · cases hok
        obtain ⟨before, key', e', after, rfl, hbefore, hhere⟩ := ih hrest
        refine ⟨(key, ⟨value, attrs⟩) :: before, key', e', after, rfl, ?_, hhere⟩
        exact List.forall_mem_cons.mpr ⟨⟨i, rule, hfirst, hvalue⟩, hbefore⟩

/-- The error about a mandatory rule is about the first one whose index is not among those matched,
and points at the section that was checked. -/
theorem exists_of_verifyMandatory (h : verifyMandatory path history here matched = .error error) :
    ∃ i rule, here.rules[i]? = some rule ∧ rule.mandatory = true ∧ i ∉ matched ∧
      (∀ j rule', j < i → here.rules[j]? = some rule' → rule'.mandatory = true → j ∈ matched) ∧
      error = { fault := .missingMandatoryKey, configKey := path, configHistory := history,
                ruleKey := rule.path, ruleHistory := rule.history } := by
  unfold verifyMandatory at h
  split at h
  · cases h
  · rename_i rule i hfind
    cases h
    obtain ⟨hmissing, n, hn, hget, hearlier⟩ := List.find?_eq_some_iff_getElem.mp hfind
    rw [List.getElem_zipIdx, Prod.mk.injEq, Nat.zero_add] at hget
    obtain ⟨hrule, rfl⟩ := hget
    simp only [Bool.and_eq_true, Bool.not_eq_true'] at hmissing
    refine ⟨n, rule, List.getElem?_eq_some_iff.mpr ⟨by simpa using hn, hrule⟩, hmissing.1,
      by simpa using hmissing.2, fun j rule' hj hget' hmandatory => ?_, rfl⟩
    obtain ⟨hj', rfl⟩ := List.getElem?_eq_some_iff.mp hget'
    have hmem := hearlier j hj
    rw [List.getElem_zipIdx] at hmem
    simpa [hmandatory] using hmem

/-- The error of a rule for scalars tells why it refuses the scalar, and points at what the check
was handed. -/
theorem refuses_of_verifyText {body : Rule} (hbody : rule.body = .value body)
    (h : verifyText registry path history (.map s.toPlain) rule body v.render = .error error) :
    Refuses registry s rule v error.fault ∧ error.configKey = path ∧
      error.configHistory = history ∧ error.ruleKey = rule.path ∧
      error.ruleHistory = rule.history := by
  unfold verifyText at h
  cases hvalue : body.evaluate { val := .str v.render, cnf := .map s.toPlain, registry } with
  | ok w =>
    rw [hvalue] at h
    by_cases htrue : w.isTruthy = true
    · simp [htrue] at h
    · simp only [htrue] at h
      cases h
      exact ⟨.ruleFailed hbody hvalue (Bool.eq_false_iff.mpr htrue), rfl, rfl, rfl, rfl⟩
  | error cause =>
    rw [hvalue] at h
    cases h
    cases cause with
    | failed message => exact ⟨.predicateFailed hbody hvalue, rfl, rfl, rfl, rfl⟩
    | invalid fault => exact ⟨.predicateError hbody hvalue, rfl, rfl, rfl, rfl⟩

/-! ## Going down -/

/-- What is known where verification has come to check the section `s` at `path` against the rules
`here`: it got there, the path and the history are those of the section, and the rules are those of
the schema at the path that they name. -/
structure Visits (engine : PatternEngine) (schema : Section) (schemaFile : String)
    (registry : PredicateRegistry) (rules : RuleSet) (config : Section) (file : String)
    (path : KeyPath) (history : Provenance) (s : Section) (here : RuleSet) : Prop where
  reaches : Reaches registry rules config path.segments s here
  found : config.sectionAt? path.segments = some s
  history : config.historyAt? file path.segments = some history
  located : here.LocatedIn engine schema schemaFile

/-- An error is explained if it is about the first failure and the histories that it shows are those
of the two things that it points at. -/
def Explained (engine : PatternEngine) (schema : Section) (schemaFile : String)
    (registry : PredicateRegistry) (rules : RuleSet) (config : Section) (file : String)
    (error : VerificationError) : Prop :=
  FirstFailure engine schema schemaFile registry rules config error ∧
    config.historyAt? file error.configKey.segments = some error.configHistory ∧
    schema.historyAt? schemaFile error.ruleKey.segments = some error.ruleHistory

namespace Visits

/-- An entry of the section that is visited is found at its path from the root. -/
theorem entryAt?
    (h : Visits engine schema schemaFile registry rules config file path history s here)
    (hs : s.KeysDistinct) (hsplit : s.entries.toList = before ++ (key, e) :: after) :
    config.entryAt? (path.push key).segments = some e := by
  have hmem : (key, e) ∈ s.entries.toList := by
    rw [hsplit]
    exact List.mem_append_right before List.mem_cons_self
  rw [KeyPath.push, Section.entryAt?_concat, h.found, Option.bind_some]
  exact OrderedMap.get?_of_mem hs hmem

/-- Verification visits a nested section once the keys before it are admitted, with the rules of the
first match of its key. -/
theorem down {attrs : KeyAttrs}
    (h : Visits engine schema schemaFile registry rules config file path history s here)
    (hschema : schema.Everywhere Section.KeysDistinct) (hs : s.KeysDistinct)
    (hsplit : s.entries.toList = before ++ (key, ⟨.subsection sub, attrs⟩) :: after)
    (hbefore : ∀ entry ∈ before, Admits registry here s entry.1 entry.2.value)
    (hfirst : here.FirstMatch key (.subsection sub) i rule) (hbody : rule.body = .keys inner) :
    Visits engine schema schemaFile registry rules config file (path.push key) attrs.history sub
      inner := by
  have hentry := h.entryAt? hs hsplit
  have hrule := KeyRule.locatedIn_of_mem h.located hschema (List.mem_of_getElem? hfirst.index)
  exact {
    reaches := h.reaches.down hsplit hbefore hfirst hbody
    found := Section.sectionAt?_of_entryAt? hentry rfl
    history := Section.historyAt?_of_entryAt? hentry file
    located := hrule.nested hbody schemaFile }

/-- A key without a rule is the first failure if the keys before it are admitted. -/
theorem explained_of_find?_eq_none
    (h : Visits engine schema schemaFile registry rules config file path history s here)
    (hs : s.KeysDistinct) (hsplit : s.entries.toList = before ++ (key, e) :: after)
    (hbefore : ∀ entry ∈ before, Admits registry here s entry.1 entry.2.value)
    (hnone : here.find? key e.value = none) :
    Explained engine schema schemaFile registry rules config file
      { fault := .noRuleFound, configKey := path.push key, configHistory := e.attrs.history,
        ruleKey := here.path, ruleHistory := here.history } := by
  have hentry := h.entryAt? hs hsplit
  exact ⟨.noRuleFound rfl h.reaches hsplit hbefore rfl hentry rfl h.located
      (find?_eq_none_iff.mp hnone),
    Section.historyAt?_of_entryAt? hentry file, h.located.history⟩

/-- A scalar that its rule refuses is the first failure if the keys before it are admitted. -/
theorem explained_of_verifyText {attrs : KeyAttrs} {body : Rule}
    (h : Visits engine schema schemaFile registry rules config file path history s here)
    (hschema : schema.Everywhere Section.KeysDistinct) (hs : s.KeysDistinct)
    (hsplit : s.entries.toList = before ++ (key, ⟨.scalar v, attrs⟩) :: after)
    (hbefore : ∀ entry ∈ before, Admits registry here s entry.1 entry.2.value)
    (hfirst : here.FirstMatch key (.scalar v) i rule) (hbody : rule.body = .value body)
    (herror : verifyText registry (path.push key) attrs.history (.map s.toPlain) rule body
      v.render = .error error) :
    Explained engine schema schemaFile registry rules config file error := by
  have hentry := h.entryAt? hs hsplit
  have hrule := KeyRule.locatedIn_of_mem h.located hschema (List.mem_of_getElem? hfirst.index)
  obtain ⟨hrefuses, hkey, hhistory, hruleKey, hruleHistory⟩ := refuses_of_verifyText hbody herror
  have hsegments : error.configKey.segments = path.segments ++ [key] := by
    rw [hkey, KeyPath.push]
  refine ⟨.refused hrefuses h.reaches hsplit hbefore hsegments ?_ hruleKey hrule hfirst, ?_, ?_⟩
  · rw [hkey]
    exact hentry
  · rw [hkey, hhistory]
    exact Section.historyAt?_of_entryAt? hentry file
  · rw [hruleKey, hruleHistory]
    exact hrule.historyAt? schemaFile

/-- A mandatory rule that is the first match of no key is the first failure once all keys have
passed. -/
theorem explained_of_verifyMandatory
    (h : Visits engine schema schemaFile registry rules config file path history s here)
    (hschema : schema.Everywhere Section.KeysDistinct)
    (hmatched : verifyEntries registry path here (.map s.toPlain) s.entries.toList = .ok matched)
    (herror : verifyMandatory path history here matched = .error error) :
    Explained engine schema schemaFile registry rules config file error := by
  obtain ⟨hpass, hindices⟩ := passes_of_verifyEntries hmatched
  obtain ⟨i, rule, hget, hrule, hunmatched, hearlier, rfl⟩ := exists_of_verifyMandatory herror
  have hlocated := KeyRule.locatedIn_of_mem h.located hschema (List.mem_of_getElem? hget)
  refine ⟨.missingMandatoryKey rfl h.reaches ?_ rfl h.found rfl hlocated hget hrule ?_ ?_,
    h.history, hlocated.historyAt? schemaFile⟩
  · rintro ⟨key, e⟩ hmem
    obtain ⟨j, -, hpass⟩ := hpass key e hmem
    exact hpass.admits
  · rintro ⟨key, e⟩ hmem hfirst
    -- the key would have left the index of its first match among those matched
    obtain ⟨j, hj, rule', hfirst', -⟩ := hpass key e hmem
    exact hunmatched ((hfirst.unique hfirst').1 ▸ hj)
  · intro j rule' hj hget' hmandatory'
    obtain ⟨key, e, hmem, rule'', hfirst, -⟩ :=
      hindices j (hearlier j rule' hj hget' hmandatory')
    obtain rfl : rule' = rule'' := Option.some.inj (hget'.symm.trans hfirst.index)
    exact ⟨(key, e), hmem, hfirst⟩

/-- An error that verification ends with where it visits a section is explained. -/
theorem explained
    (h : Visits engine schema schemaFile registry rules config file path history s here)
    (hschema : schema.Everywhere Section.KeysDistinct) (hs : s.Everywhere Section.KeysDistinct)
    (herror : verifySection registry path history here s = .error error) :
    Explained engine schema schemaFile registry rules config file error := by
  induction s using Section.nested_induction generalizing path history here with
  | step s ih =>
    have herror' : (verifyEntries registry path here (.map s.toPlain) s.entries.toList >>=
        verifyMandatory path history here) = .error error := by
      obtain ⟨name, ⟨entries⟩⟩ := s
      exact herror
    -- either the walk over the entries fails or, after all of them, a mandatory rule is missing
    rcases Except.bind_eq_error_iff.mp herror' with hentries | ⟨matched, hmatched, hmandatory⟩
    · obtain ⟨before, key, ⟨value, attrs⟩, after, hsplit, hpass, hcase⟩ :=
        exists_split_of_verifyEntries hentries
      have hbefore : ∀ entry ∈ before, Admits registry here s entry.1 entry.2.value := by
        intro entry hentry
        obtain ⟨i, hpass⟩ := hpass entry hentry
        exact hpass.admits
      rcases hcase with ⟨hnone, rfl⟩ | ⟨i, rule, hfirst, hvalue⟩
      · exact h.explained_of_find?_eq_none hs.holds hsplit hbefore hnone
      · cases value with
        | scalar v =>
          obtain ⟨body, hbody⟩ := hfirst.exists_value
          rw [verifyValue, hbody] at hvalue
          exact h.explained_of_verifyText hschema hs.holds hsplit hbefore hfirst hbody hvalue
        | subsection sub =>
          -- the failure is further down, where the visit of the nested section finds it
          obtain ⟨inner, hbody⟩ := hfirst.exists_keys
          rw [verifyValue, hbody] at hvalue
          have hmem : (key, Entry.mk (.subsection sub) attrs) ∈ s.entries.toList := by
            rw [hsplit]
            exact List.mem_append_right before List.mem_cons_self
          have hsub : s.subsection? key = some sub :=
            Section.subsection?_of_get? (OrderedMap.get?_of_mem hs.holds hmem)
          exact ih key sub attrs hmem (h.down hschema hs.holds hsplit hbefore hfirst hbody)
            (hs.down hsub) hvalue
    · exact h.explained_of_verifyMandatory hschema hmatched hmandatory

end Visits

/-- The error of a failed verification is about the first failure. Its path in the configuration
leads to what is refused and its path in the schema to what refuses it, and it shows the histories
of both. -/
theorem verify_error_first_failure (hschema : schema.Everywhere Section.KeysDistinct)
    (hconfig : config.Everywhere Section.KeysDistinct)
    (hrules : ofSchema engine schema schemaFile = .ok rules)
    (herror : rules.verify registry config file = .error error) :
    FirstFailure engine schema schemaFile registry rules config error ∧
      config.historyAt? file error.configKey.segments = some error.configHistory ∧
      schema.historyAt? schemaFile error.ruleKey.segments = some error.ruleHistory := by
  have hroot : Visits engine schema schemaFile registry rules config file {}
      (.ofOrigin (.ofFile file)) config rules :=
    { reaches := .root, found := rfl, history := rfl, located := locatedIn_of_ofSchema hrules }
  exact hroot.explained hschema hconfig herror

/-- An entry with a text, defined at a place of its own. -/
def defined (place text : String) : Entry :=
  ⟨.scalar (.text text), { history := .ofOrigin (.ofFile place) }⟩

/-- A schema whose section `server` has a rule about the ports that are listed there. -/
def listing : Section :=
  ⟨none, ⟨[
    ("mode", defined "s1" "re('[a-z]+')"),
    ("server", ⟨.subsection ⟨some "server", ⟨[
      ("ports", defined "s2" "re('[0-9 ]+')"),
      ("port|spare", defined "s3" "cond(VAL in CNF['ports'], 'not listed')")]⟩⟩,
      { history := .ofOrigin (.ofFile "s4") }⟩)]⟩⟩

/-- A configuration in which `port` is listed and `spare` is not. -/
def unlisted : Section :=
  ⟨none, ⟨[
    ("mode", defined "c1" "strict"),
    ("server", ⟨.subsection ⟨some "server", ⟨[
      ("port", defined "c2" "80"),
      ("spare", defined "c3" "22"),
      ("ports", defined "c4" "80 443")]⟩⟩, { history := .ofOrigin (.ofFile "c5") }⟩)]⟩⟩

/-- The port `spare` is not listed, and `port`, which the same rule is about, is admitted before
it. -/
theorem verify_error_first_failure_unlisted :
    ∃ rules, ofSchema .standard listing "schema" = .ok rules ∧
      listing.Everywhere Section.KeysDistinct ∧ unlisted.Everywhere Section.KeysDistinct ∧
      ∃ error, rules.verify (.builtin .standard) unlisted "config" = .error error ∧
        error = { fault := .predicateFailed "not listed", configKey := ⟨["server", "spare"]⟩,
                  configHistory := .ofOrigin (.ofFile "c3"),
                  ruleKey := ⟨["server", "port|spare"]⟩,
                  ruleHistory := .ofOrigin (.ofFile "s3") } ∧
        FirstFailure .standard listing "schema" (.builtin .standard) rules unlisted error ∧
        unlisted.historyAt? "config" error.configKey.segments = some error.configHistory ∧
        listing.historyAt? "schema" error.ruleKey.segments = some error.ruleHistory := by
  obtain ⟨rules, hrules, hfails⟩ := Except.exists_of_any_toOption
    (ofSchema .standard listing "schema")
    (fun rules => rules.verify (.builtin .standard) unlisted "config" = .error {
      fault := .predicateFailed "not listed", configKey := ⟨["server", "spare"]⟩,
      configHistory := .ofOrigin (.ofFile "c3"), ruleKey := ⟨["server", "port|spare"]⟩,
      ruleHistory := .ofOrigin (.ofFile "s3") }) (by decide +kernel)
  have herror := of_decide_eq_true hfails
  have hlisting : listing.Everywhere Section.KeysDistinct := by
    refine .of_toList (by decide) ?_
    rintro _ (_ | ⟨_, _ | ⟨_, ⟨⟩⟩⟩) sub ⟨⟩
    refine .of_toList (by decide) ?_
    rintro _ (_ | ⟨_, _ | ⟨_, ⟨⟩⟩⟩) sub ⟨⟩
  have hunlisted : unlisted.Everywhere Section.KeysDistinct := by
    refine .of_toList (by decide) ?_
    rintro _ (_ | ⟨_, _ | ⟨_, ⟨⟩⟩⟩) sub ⟨⟩
    refine .of_toList (by decide) ?_
    rintro _ (_ | ⟨_, _ | ⟨_, _ | ⟨_, ⟨⟩⟩⟩⟩) sub ⟨⟩
  exact ⟨rules, hrules, hlisting, hunlisted, _, herror, rfl,
    verify_error_first_failure hlisting hunlisted hrules herror⟩

end LayeredConfig.RuleSet
