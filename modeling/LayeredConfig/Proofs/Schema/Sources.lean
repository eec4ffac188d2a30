import LayeredConfig.Proofs.Except
import LayeredConfig.Proofs.Section.Paths
import LayeredConfig.Schema.Basic

/-!
# Where rules come from

A rule and a set of rules keep the path of the key that they were read from. In a schema with
distinct keys this path leads back to that key: what is found there, read once more, gives the same
rule with the same history (`LocatedIn`).
-/

namespace LayeredConfig

/-- The history of the definitions of the key at a path of the document at `file`. The empty path
stands for the document, which is defined by the file as a whole. -/
def Section.historyAt? (root : Section) (file : String) (path : List String) :
    Option Provenance :=
  if path = [] then some (.ofOrigin (.ofFile file)) else (root.lookupAttrs? path).map (·.history)

/-- The history at the path of an entry is that of the entry. -/
theorem Section.historyAt?_of_entryAt? {root : Section} {path : List String} {e : Entry}
    (h : root.entryAt? path = some e) (file : String) :
    root.historyAt? file path = some e.attrs.history := by
  have hpath : path ≠ [] := by
    rintro rfl
    cases h
  rw [historyAt?, if_neg hpath, lookupAttrs?, h]
  rfl

namespace RuleSet

variable {engine : PatternEngine} {schema s : Section} {file : String} {path : KeyPath}
  {history : Provenance}
  {rules inner : RuleSet} {rule : KeyRule} {key : String} {e : Entry}
  {entries : List (String × Entry)} {list : List KeyRule}

/-- A rule is what is read from a key of the section at `path` of a schema. -/
structure ReadFrom (engine : PatternEngine) (path : KeyPath) (key : String) (e : Entry)
    (rule : KeyRule) : Prop where
  path : rule.path = path.push key
  pattern : keyPattern engine key = .ok rule.pattern
  mandatory : rule.mandatory = e.attrs.flags.mandatory
  body : bodyOfValue engine rule.path rule.history e.value = .ok rule.body
  history : rule.history = e.attrs.history

/-- Every rule that is read from some entries is read from one of them. -/
theorem exists_readFrom_of_mem (h : rulesOfEntries engine path entries = .ok list)
    (hrule : rule ∈ list) : ∃ key e, (key, e) ∈ entries ∧ ReadFrom engine path key e rule := by
  induction entries generalizing list with
  | nil =>
    cases h
    cases hrule
  | cons entry entries ih =>
    obtain ⟨key, value, attrs⟩ := entry
    obtain ⟨pattern, hpattern, h⟩ := Except.bind_eq_ok_iff.mp h
    obtain ⟨body, hbody, h⟩ := Except.bind_eq_ok_iff.mp h
    obtain ⟨rest, hrest, h⟩ := Except.bind_eq_ok_iff.mp h
    cases h
    rcases List.mem_cons.mp hrule with rfl | hrule
    · exact ⟨key, ⟨value, attrs⟩, List.mem_cons_self,
        rfl, Except.mapError_eq_ok_iff.mp hpattern, rfl, hbody, rfl⟩
    · obtain ⟨key', e', hmem, hread⟩ := ih hrest hrule
      exact ⟨key', e', List.mem_cons_of_mem _ hmem, hread⟩

/-- The rules of a section are those of its entries, with the path and the history that it was read
with. -/
theorem ofSection_eq_ok (h : ofSection engine path history s = .ok rules) :
    rules.path = path ∧ rules.history = history ∧
      rulesOfEntries engine path s.entries.toList = .ok rules.rules := by
  obtain ⟨name, ⟨entries⟩⟩ := s
  obtain ⟨list, hlist, rfl⟩ := Except.map_eq_ok_iff.mp h
  exact ⟨rfl, rfl, hlist⟩

/-- A set of rules is that of the section to which its path leads in the schema at `file`, and its
history is the one of that section. -/
structure LocatedIn (engine : PatternEngine) (schema : Section) (file : String)
    (rules : RuleSet) : Prop where
  source : ∃ s, schema.sectionAt? rules.path.segments = some s ∧
    ofSection engine rules.path rules.history s = .ok rules
  history : schema.historyAt? file rules.path.segments = some rules.history

/-- The rules of a schema are those of its root. -/
theorem locatedIn_of_ofSchema (h : ofSchema engine schema file = .ok rules) :
    rules.LocatedIn engine schema file := by
  obtain ⟨hpath, hhistory, -⟩ := ofSection_eq_ok h
  refine ⟨⟨schema, ?_, ?_⟩, ?_⟩
  · rw [hpath]
    rfl
  · rw [hpath, hhistory]
    exact h
  · rw [hpath, hhistory]
    rfl

end RuleSet

namespace KeyRule

open RuleSet

variable {engine : PatternEngine} {schema : Section} {file : String} {rules inner : RuleSet}
  {rule : KeyRule}

/-- A rule is that of the key to which its path leads in the schema, and it has the history of that
key. -/
def LocatedIn (engine : PatternEngine) (schema : Section) (rule : KeyRule) : Prop :=
  ∃ path key e, schema.entryAt? rule.path.segments = some e ∧ ReadFrom engine path key e rule

/-- In a schema with distinct keys, the path of a rule leads to the entry from which it was read. -/
theorem locatedIn_of_mem (hrules : rules.LocatedIn engine schema file)
    (hschema : schema.Everywhere Section.KeysDistinct) (hrule : rule ∈ rules.rules) :
    rule.LocatedIn engine schema := by
  obtain ⟨⟨s, hs, hread⟩, -⟩ := hrules
  obtain ⟨-, -, hlist⟩ := ofSection_eq_ok hread
  obtain ⟨key, e, hmem, hrule⟩ := exists_readFrom_of_mem hlist hrule
  refine ⟨rules.path, key, e, ?_, hrule⟩
  rw [hrule.path, KeyPath.push, Section.entryAt?_concat, hs, Option.bind_some]
  exact OrderedMap.get?_of_mem (hschema.sectionAt? hs).holds hmem

/-- The path of a rule leads to a key with the history of the rule. -/
theorem LocatedIn.historyAt? (h : rule.LocatedIn engine schema) (file : String) :
    schema.historyAt? file rule.path.segments = some rule.history := by
  obtain ⟨path, key, e, he, hread⟩ := h
  rw [Section.historyAt?_of_entryAt? he, hread.history]

/-- The rules nested in a rule are those of a nested section. -/
theorem LocatedIn.nested (h : rule.LocatedIn engine schema) (hbody : rule.body = .keys inner)
    (file : String) :
    inner.LocatedIn engine schema file := by
  have hhistory := h.historyAt? file
  obtain ⟨path, key, e, he, hread⟩ := h
  -- the rule has rules for a section, so that its key holds one
  have hvalue := hread.body
  cases hsub : e.value with
  | scalar v =>
    rw [hsub, hbody] at hvalue
    obtain ⟨_, -, heq⟩ := Except.map_eq_ok_iff.mp hvalue
    cases heq
  | subsection sub =>
    rw [hsub, hbody] at hvalue
    obtain ⟨inner', hinner, heq⟩ := Except.map_eq_ok_iff.mp hvalue
    cases heq
    obtain ⟨hpath, hinnerHistory, -⟩ := ofSection_eq_ok hinner
    refine ⟨⟨sub, ?_, ?_⟩, ?_⟩
    · rw [hpath]
      exact Section.sectionAt?_of_entryAt? he hsub
    · rw [hpath, hinnerHistory]
      exact hinner
    · rw [hpath, hinnerHistory]
      exact hhistory

end KeyRule

end LayeredConfig
