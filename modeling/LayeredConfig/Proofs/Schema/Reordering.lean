import LayeredConfig.Pattern.Standard
import LayeredConfig.Proofs.Rule.Reordering
import LayeredConfig.Proofs.Schema.Conformance
import LayeredConfig.Proofs.Section.Nodes
import LayeredConfig.Proofs.Section.Temporary

/-!
# Verification does not see the order of keys

Two configurations that hold the same keys, sections and texts, each section in an order of its own,
conform to the same schemas. The order is of no account to the question which rule is the first one
for a key, and the rules themselves do not see it either.
-/

namespace LayeredConfig

/-! ## Trees in another order -/

namespace Section

variable {s t sub sub' : Section} {key : String} {value value' : Value}

/-- The two trees hold the same keys with the same scalars and sections, at every level in some
order. Names, flags and histories are of no account. -/
inductive Reordered : Section → Section → Prop
  | intro {s t : Section} (keys : s.entries.keys.Perm t.entries.keys)
      (scalars : ∀ key value value', s.get? key = some value → t.get? key = some value' →
        value.scalar? = value'.scalar?)
      (below : ∀ key sub sub', s.get? key = some (.subsection sub) →
        t.get? key = some (.subsection sub') → Reordered sub sub') :
      Reordered s t

theorem subsection?_eq_some_iff_get? :
    s.subsection? key = some sub ↔ s.get? key = some (.subsection sub) := by
  rw [subsection?]
  cases s.get? key with
  | none => simp
  | some value => cases value <;> simp [Value.subsection?]

/-- A look-up of a value is one of an entry, whatever attributes it has. -/
theorem get?_eq_some_iff :
    s.get? key = some value ↔ ∃ attrs, s.entries.get? key = some ⟨value, attrs⟩ := by
  rw [get?, Option.map_eq_some_iff]
  constructor
  · rintro ⟨⟨value', attrs⟩, hget, rfl⟩
    exact ⟨attrs, hget⟩
  · rintro ⟨attrs, hget⟩
    exact ⟨⟨value, attrs⟩, hget, rfl⟩

theorem mem_keys_of_get?_eq_some (h : s.get? key = some value) : key ∈ s.entries.keys := by
  obtain ⟨attrs, hget⟩ := get?_eq_some_iff.mp h
  exact OrderedMap.mem_keys_of_get? hget

theorem exists_get?_of_mem_keys (h : key ∈ s.entries.keys) : ∃ value, s.get? key = some value := by
  obtain ⟨⟨value, attrs⟩, hget⟩ := OrderedMap.mem_keys_iff.mp h
  exact ⟨value, get?_eq_some_iff.mpr ⟨attrs, hget⟩⟩

namespace Reordered

/-- The sections at the roots hold the same keys. -/
theorem keys_perm (h : Reordered s t) : s.entries.keys.Perm t.entries.keys := by
  cases h with
  | intro keys _ _ => exact keys

/-- Either tree is the other one in another order. -/
theorem symm (h : Reordered s t) : Reordered t s := by
  induction h with
  | intro keys scalars _ ih =>
    exact .intro keys.symm (fun key v v' hv hv' => (scalars key v' v hv' hv).symm)
      fun key sub sub' hsub hsub' => ih key sub' sub hsub' hsub

/-- What a key holds in the first tree, it holds in the second one up to the order of keys. -/
theorem get? (h : Reordered s t) (hvalue : s.get? key = some value) :
    (∃ v, value = .scalar v ∧ t.get? key = some (.scalar v)) ∨
      ∃ sub sub', value = .subsection sub ∧ t.get? key = some (.subsection sub') ∧
        Reordered sub sub' := by
  cases h with
  | intro keys scalars below =>
    have hkey := keys.mem_iff.mp (mem_keys_of_get?_eq_some hvalue)
    obtain ⟨value', hvalue'⟩ := exists_get?_of_mem_keys hkey
    have hscalar := scalars key value value' hvalue hvalue'
    cases value with
    | scalar v =>
      cases value' with
      | scalar v' =>
        cases hscalar
        exact Or.inl ⟨v, rfl, hvalue'⟩
      | subsection sub' => cases hscalar
    | subsection sub =>
      cases value' with
      | scalar v' => cases hscalar
      | subsection sub' => exact Or.inr ⟨sub, sub', rfl, hvalue', below key sub sub' hvalue hvalue'⟩

/-- Distinct keys stay distinct, at every level. -/
theorem keysDistinct (h : Reordered s t) (hs : s.Everywhere KeysDistinct) :
    t.Everywhere KeysDistinct := by
  induction h with
  | @intro s t keys scalars below ih =>
    have hreordered : Reordered s t := .intro keys scalars below
    refine .intro (keys.nodup_iff.mp hs.holds) fun key sub' hsub' => ?_
    have hget' := subsection?_eq_some_iff_get?.mp hsub'
    obtain ⟨_, heq, -⟩ | ⟨_, sub, heq, hget, -⟩ := hreordered.symm.get? hget'
    · cases heq
    · exact ih key sub sub' hget hget' (hs.down (subsection?_eq_some_iff_get?.mpr hget))

/-- The mappings that rules are handed for the two trees differ in the order of keys only. -/
theorem toPlain (h : Reordered s t) (hs : s.Everywhere KeysDistinct) :
    PlainValue.Reordered (.mapping s.toPlain) (.mapping t.toPlain) := by
  induction h with
  | @intro s t keys scalars below ih =>
    have hreordered : Reordered s t := .intro keys scalars below
    refine .mapping ?_ ?_ fun key v v' hv hv' => ?_
    · rw [keys_toPlain]
      exact hs.holds
    · rw [keys_toPlain, keys_toPlain]
      exact keys
    · rw [get?_toPlain] at hv hv'
      obtain ⟨value, hvalue, rfl⟩ := Option.map_eq_some_iff.mp hv
      obtain ⟨value', hvalue', rfl⟩ := Option.map_eq_some_iff.mp hv'
      obtain ⟨x, rfl, hx⟩ | ⟨sub, sub', rfl, hsub', -⟩ := hreordered.get? hvalue
      · obtain rfl := Option.some.inj (hvalue'.symm.trans hx)
        exact .text x.render
      · obtain rfl := Option.some.inj (hvalue'.symm.trans hsub')
        have hdown := hs.down (subsection?_eq_some_iff_get?.mpr hvalue)
        exact ih key sub sub' hvalue hvalue' hdown

end Reordered

end Section

/-! ## The same verdict -/

namespace RuleSet

variable {rules : RuleSet} {registry : PredicateRegistry} {s t : Section} {key : String}
  {value value' : Value} {rule : KeyRule} {i : Nat}

/-- Which rule is the first one for a key depends on its name and its shape only. -/
theorem FirstMatch.of_shape (h : rules.FirstMatch key value i rule)
    (hshape : value'.isSubsection = value.isSubsection) : rules.FirstMatch key value' i rule where
  index := h.index
  name := h.name
  shape := h.shape.trans hshape.symm
  first j earlier hj hget := by
    rw [hshape]
    exact h.first j earlier hj hget

/-- Whether a rule accepts a scalar does not depend on the order of the keys that it sees through
`CNF`. -/
theorem Accepts.reordered {v : Scalar} (hregistry : registry.Unordered) (h : s.Reordered t)
    (hs : s.Everywhere Section.KeysDistinct) (haccepts : Accepts registry s rule v) :
    Accepts registry t rule v := by
  obtain ⟨body, w, hbody, hw, htrue⟩ := haccepts
  -- the rule is evaluated in two environments that differ in the order of the configuration only
  have henv : RuleEnv.Reordered
      { val := .str v.render, cnf := .map s.toPlain, registry }
      { val := .str v.render, cnf := .map t.toPlain, registry } :=
    { val := .refl _, cnf := .map (h.toPlain hs), registry := rfl, unordered := hregistry }
  have hagree := Expr.evaluate_agree henv body.expr
  rw [Rule.evaluate] at hw
  rw [hw] at hagree
  cases hw' : body.expr.evaluate { val := .str v.render, cnf := .map t.toPlain, registry } with
  | error e =>
    rw [hw'] at hagree
    cases hagree
  | ok w' =>
    rw [hw'] at hagree
    cases hagree with
    | ok related => exact ⟨body, w', hbody, hw', related.isTruthy_eq.symm.trans htrue⟩

/-- With distinct keys, the entries of a section are its look-ups. -/
theorem conforms_iff_get? (hs : s.KeysDistinct) : Conforms registry rules s ↔
    (∀ key value, s.get? key = some value → Admits registry rules s key value) ∧
      ∀ i rule, rules.rules[i]? = some rule → rule.mandatory = true →
        ∃ key value, s.get? key = some value ∧ rules.FirstMatch key value i rule := by
  have hmem : ∀ key value, s.get? key = some value ↔
      ∃ e, (key, e) ∈ s.entries.toList ∧ e.value = value := by
    intro key value
    rw [Section.get?, Option.map_eq_some_iff]
    exact exists_congr fun e =>
      and_congr_left' ⟨OrderedMap.mem_of_get?, OrderedMap.get?_of_mem hs⟩
  rw [conforms_iff_admits]
  simp only [hmem]
  constructor
  · rintro ⟨hadmits, hmandatory⟩
    refine ⟨?_, fun i rule hget hrule => ?_⟩
    · rintro key _ ⟨e, he, rfl⟩
      exact hadmits key e he
    · obtain ⟨key, e, he, hmatch⟩ := hmandatory i rule hget hrule
      exact ⟨key, e.value, ⟨e, he, rfl⟩, hmatch⟩
  · rintro ⟨hadmits, hmandatory⟩
    refine ⟨fun key e he => hadmits key e.value ⟨e, he, rfl⟩, fun i rule hget hrule => ?_⟩
    obtain ⟨key, _, ⟨e, he, rfl⟩, hmatch⟩ := hmandatory i rule hget hrule
    exact ⟨key, e, he, hmatch⟩

/-- What conforms keeps conforming when its keys are put in another order. -/
theorem Conforms.reordered (hregistry : registry.Unordered) (hconforms : Conforms registry rules s)
    (h : s.Reordered t) (hs : s.Everywhere Section.KeysDistinct) : Conforms registry rules t := by
  induction s using Section.subsection_induction generalizing rules t with
  | step s ih =>
    obtain ⟨hadmits, hmandatory⟩ := (conforms_iff_get? hs.holds).mp hconforms
    refine (conforms_iff_get? (h.keysDistinct hs).holds).mpr ⟨?_, ?_⟩
    · -- a key of the second tree is one of the first, where some rule admits it
      intro key value' hvalue'
      obtain ⟨v, rfl, hv⟩ | ⟨sub', sub, rfl, hsub, hreordered⟩ := h.symm.get? hvalue'
      · obtain ⟨i, rule, hmatch, haccepts⟩ := hadmits key _ hv
        exact ⟨i, rule, hmatch, Accepts.reordered hregistry h hs haccepts⟩
      · obtain ⟨i, rule, hmatch, inner, hbody, hinner⟩ := hadmits key _ hsub
        have hdown := Section.subsection?_eq_some_iff_get?.mpr hsub
        exact ⟨i, rule, hmatch.of_shape rfl, inner, hbody,
          ih key sub hdown hinner hreordered.symm (hs.down hdown)⟩
    · -- the key that a mandatory rule has matched is in the second tree, too
      intro i rule hget hrule
      obtain ⟨key, value, hvalue, hmatch⟩ := hmandatory i rule hget hrule
      obtain ⟨v, rfl, hv⟩ | ⟨sub, sub', rfl, hsub', -⟩ := h.get? hvalue
      · exact ⟨key, _, hv, hmatch⟩
      · exact ⟨key, _, hsub', hmatch.of_shape rfl⟩

/-- Whether a configuration passes with the built-in predicates does not depend on the order in
which the keys of its sections are written. -/
theorem verify_eq_ok_iff_of_reordered (engine : PatternEngine) (rules : RuleSet)
    (hs : s.Everywhere Section.KeysDistinct) (h : s.Reordered t) (file file' : String) :
    rules.verify (.builtin engine) s file = .ok () ↔
      rules.verify (.builtin engine) t file' = .ok () := by
  have hbuiltin := PredicateRegistry.unordered_builtin engine
  rw [verify, verify, verifySection_eq_ok_iff_conforms, verifySection_eq_ok_iff_conforms]
  constructor
  · exact fun hconforms => hconforms.reordered hbuiltin h hs
  · exact fun hconforms => hconforms.reordered hbuiltin h.symm (h.keysDistinct hs)

/-- A schema whose rule for `mode` compares two sections. -/
def comparing : Section :=
  ⟨none, ⟨[
    ("mode", ⟨.scalar (.text "CNF['old'] == CNF['new'] and re('[a-z]+')"),
      { flags := { mandatory := true } }⟩),
    ("old|new", ⟨.subsection ⟨some "old|new", ⟨[
      ("[a-c]", ⟨.scalar (.text "VAL in CNF"), {}⟩)]⟩⟩, {}⟩)]⟩⟩

/-- A section of two texts. -/
def pair (name first firstText second secondText : String) : Section :=
  ⟨some name, ⟨[(first, ⟨.scalar (.text firstText), {}⟩),
    (second, ⟨.scalar (.text secondText), {}⟩)]⟩⟩

/-- A configuration of two equal sections and a text. -/
def sorted : Section :=
  ⟨none, ⟨[
    ("mode", ⟨.scalar (.text "strict"), {}⟩),
    ("old", ⟨.subsection (pair "old" "a" "b" "b" "a"), {}⟩),
    ("new", ⟨.subsection (pair "new" "a" "b" "b" "a"), {}⟩)]⟩⟩

/-- The same configuration in another order and with other flags. -/
def shuffled : Section :=
  ⟨none, ⟨[
    ("new", ⟨.subsection (pair "new" "b" "a" "a" "b"), {}⟩),
    ("mode", ⟨.scalar (.text "strict"), { flags := { final := true } }⟩),
    ("old", ⟨.subsection (pair "old" "a" "b" "b" "a"), { flags := { writable := true } }⟩)]⟩⟩

/-- The keys of `sorted`. -/
theorem mem_keys_sorted (h : sorted.get? key = some value) :
    key = "mode" ∨ key = "old" ∨ key = "new" := by
  simpa [sorted, OrderedMap.keys] using Section.mem_keys_of_get?_eq_some h

/-- The keys of a section of two texts. -/
theorem mem_keys_pair {name first firstText second secondText : String}
    (h : (pair name first firstText second secondText).get? key = some value) :
    key = first ∨ key = second := by
  simpa [pair, OrderedMap.keys] using Section.mem_keys_of_get?_eq_some h

/-- The two configurations differ in the order of their keys and in flags only. -/
theorem sorted_reordered_shuffled : sorted.Reordered shuffled := by
  refine .intro (by decide) ?_ ?_
  · intro key value value' h h'
    obtain rfl | rfl | rfl := mem_keys_sorted h <;> cases h <;> cases h' <;> rfl
  · intro key sub sub' h h'
    obtain rfl | rfl | rfl := mem_keys_sorted h <;> cases h <;> cases h'
    · -- the section `old` has its texts in the same order in both
      refine .intro (.refl _) (fun key value value' h h' => ?_) (fun key sub sub' h _ => ?_)
      · cases h.symm.trans h'
        rfl
      · obtain rfl | rfl := mem_keys_pair h <;> cases h
    · -- in the section `new` they have changed places
      refine .intro (by decide) (fun key value value' h h' => ?_) (fun key sub sub' h _ => ?_)
      · obtain rfl | rfl := mem_keys_pair h <;> cases h <;> cases h' <;> rfl
      · obtain rfl | rfl := mem_keys_pair h <;> cases h

/-- No section of `sorted` has a key twice. -/
theorem keysDistinct_sorted : sorted.Everywhere Section.KeysDistinct := by
  refine .intro (by decide) fun key sub hsub => ?_
  have h := Section.subsection?_eq_some_iff_get?.mp hsub
  obtain rfl | rfl | rfl := mem_keys_sorted h <;> cases h
  all_goals
    refine .intro (by decide) fun key sub hsub => ?_
    have h := Section.subsection?_eq_some_iff_get?.mp hsub
    obtain rfl | rfl := mem_keys_pair h <;> cases h

/-- A rule that compares two sections, the keys of which are in different orders in one of the
configurations, accepts both. -/
theorem verify_eq_ok_iff_of_reordered_shuffled :
    ∃ rules, ofSchema .standard comparing "schema" = .ok rules ∧
      sorted.Everywhere Section.KeysDistinct ∧ sorted.Reordered shuffled ∧
      rules.verify (.builtin .standard) sorted "sorted" = .ok () ∧
      (rules.verify (.builtin .standard) sorted "sorted" = .ok () ↔
        rules.verify (.builtin .standard) shuffled "shuffled" = .ok ()) := by
  obtain ⟨rules, hrules, hok⟩ := Except.exists_of_any_toOption
    (ofSchema .standard comparing "schema")
    (fun rules => rules.verify (.builtin .standard) sorted "sorted" = .ok ()) (by decide +kernel)
  exact ⟨rules, hrules, keysDistinct_sorted, sorted_reordered_shuffled, of_decide_eq_true hok,
    verify_eq_ok_iff_of_reordered .standard rules keysDistinct_sorted sorted_reordered_shuffled
      "sorted" "shuffled"⟩

end RuleSet

end LayeredConfig
