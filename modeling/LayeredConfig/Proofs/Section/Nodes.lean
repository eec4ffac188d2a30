import LayeredConfig.Proofs.Section.Paths
import LayeredConfig.Section.Plain

/-!
# What shows at a path

Seen from outside, a tree holds at each path a scalar, or a section with certain keys, or nothing.
`nodeAt?` is that view. It leaves out the attributes and what the sections on the way hold besides,
so that the effect of a write on it is a matter of two paths. The plain mapping of a tree holds what
shows in the tree.
-/

namespace LayeredConfig

/-- What shows of a value: the scalar that it is, or the keys of the section that it is. -/
inductive Node
  | scalar (value : Scalar)
  | keys (keys : List String)
deriving DecidableEq, Repr

namespace Value

/-- What shows of a value at the end of the empty path. -/
def node : Value → Node
  | .scalar v => .scalar v
  | .subsection s => .keys s.entries.keys

/-- What shows below a value at the end of a path. -/
def nodeAt? : Value → (path : List String) → Option Node
  | v, [] => some v.node
  | .scalar _, _ :: _ => none
  | .subsection s, k :: path => (s.get? k).bind fun v => v.nodeAt? path

end Value

/-- Below a path where nothing shows, nothing shows. -/
theorem Value.nodeAt?_append_of_eq_none {v : Value} {p : List String} (h : v.nodeAt? p = none)
    (q : List String) : v.nodeAt? (p ++ q) = none := by
  induction p generalizing v with
  | nil => cases h
  | cons k p ih =>
    cases v with
    | scalar v => rfl
    | subsection s =>
      rw [List.cons_append, nodeAt?]
      rw [nodeAt?] at h
      cases hget : s.get? k with
      | none => rfl
      | some v =>
        rw [hget] at h
        exact ih h

/-- The plain value at the end of a path. -/
def PlainValue.at? : PlainValue → (path : List String) → Option PlainValue
  | v, [] => some v
  | .text _, _ :: _ => none
  | .mapping m, k :: path => (m.get? k).bind fun v => v.at? path

/-- The plain value that a mapping holds at the end of a path. The empty path leads to the mapping
itself. -/
def PlainMap.at? (m : PlainMap) (path : List String) : Option PlainValue :=
  (PlainValue.mapping m).at? path

namespace Section

variable {s sub : Section} {k : String} {p q : List String} {v : Scalar} {w : Value}
  {keys : List String} {x : String}

/-- What shows in a tree at the end of a path. -/
def nodeAt? (s : Section) (path : List String) : Option Node :=
  (Value.subsection s).nodeAt? path

/-- At the empty path there is the section itself. -/
theorem nodeAt?_nil (s : Section) : s.nodeAt? [] = some (.keys s.entries.keys) :=
  rfl

/-- What shows below a name shows in the value there. -/
theorem nodeAt?_cons (s : Section) (k : String) (p : List String) :
    s.nodeAt? (k :: p) = (s.get? k).bind (·.nodeAt? p) :=
  rfl

/-- What shows below the path of a section shows in that section. -/
theorem nodeAt?_append (hs : s.sectionAt? p = some sub) (q : List String) :
    s.nodeAt? (p ++ q) = sub.nodeAt? q := by
  induction p generalizing s with
  | nil =>
    cases hs
    rfl
  | cons k p ih =>
    rw [sectionAt?_cons] at hs
    obtain ⟨sub', hsub', hs⟩ := Option.bind_eq_some_iff.mp hs
    obtain ⟨v, hv, hvsub⟩ := Option.bind_eq_some_iff.mp hsub'
    -- only a section can be gone through
    cases v with
    | scalar v => cases hvsub
    | subsection sub'' =>
      cases hvsub
      rw [List.cons_append, nodeAt?_cons, hv, Option.bind_some]
      exact ih hs

/-- Keys show at a path exactly if it leads to a section that has them. -/
theorem nodeAt?_eq_keys_iff :
    s.nodeAt? p = some (.keys keys) ↔
      ∃ sub, s.sectionAt? p = some sub ∧ sub.entries.keys = keys := by
  induction p generalizing s with
  | nil =>
    rw [nodeAt?_nil]
    constructor
    · intro h
      cases h
      exact ⟨s, rfl, rfl⟩
    · rintro ⟨sub, hsub, rfl⟩
      cases hsub
      rfl
  | cons k p ih =>
    rw [nodeAt?_cons, sectionAt?_cons, subsection?]
    cases s.get? k with
    | none => simp
    | some v =>
      cases v with
      | scalar v => cases p <;> simp [Value.nodeAt?, Value.node, Value.subsection?]
      | subsection sub => exact ih

/-- A scalar shows at a path exactly if it is found there. -/
theorem nodeAt?_eq_scalar_iff :
    s.nodeAt? p = some (.scalar v) ↔ s.lookup? p = some (.scalar v) := by
  induction p generalizing s with
  | nil => constructor <;> rintro ⟨⟩
  | cons k p ih =>
    rw [nodeAt?_cons]
    by_cases hp : p = []
    · subst hp
      rw [lookup?_singleton, show (s.entries.get? k).map (·.value) = s.get? k from rfl]
      cases s.get? k with
      | none => constructor <;> rintro ⟨⟩
      | some w => cases w <;> simp [Value.nodeAt?, Value.node]
    · rw [lookup?_cons s k hp, subsection?]
      cases s.get? k with
      | none => constructor <;> rintro ⟨⟩
      | some w =>
        cases w with
        -- nothing shows below a scalar, and nothing is found there
        | scalar w =>
          obtain ⟨k', p', rfl⟩ := List.exists_cons_of_ne_nil hp
          constructor <;> rintro ⟨⟩
        | subsection sub => exact ih

/-! ## Plain mappings -/

/-- The plain mapping of a section has the plain values of its entries. -/
theorem toPlain_eq (s : Section) : s.toPlain = s.entries.map fun e => toPlainValue e.value := by
  obtain ⟨name, ⟨entries⟩⟩ := s
  have hentries : toPlainEntries entries =
      ((OrderedMap.mk entries).map fun e => toPlainValue e.value).toList := by
    induction entries with
    | nil => rfl
    | cons entry entries ih =>
      obtain ⟨key, value, attrs⟩ := entry
      rw [toPlainEntries, ih]
      rfl
  rw [toPlain, hentries]

/-- A section and its plain mapping have the same keys. -/
theorem keys_toPlain (s : Section) : s.toPlain.keys = s.entries.keys := by
  rw [toPlain_eq, OrderedMap.keys_map]

/-- Under a key, the plain mapping has the plain value of what the section has there. -/
theorem get?_toPlain (s : Section) (k : String) :
    s.toPlain.get? k = (s.get? k).map toPlainValue := by
  rw [toPlain_eq, OrderedMap.get?_map, Section.get?, Option.map_map]
  rfl

/-- A text stands at a path of a plain value exactly if a scalar that is rendered so shows there. -/
theorem at?_toPlainValue_eq_text_iff :
    (toPlainValue w).at? p = some (.text x) ↔
      ∃ v, w.nodeAt? p = some (.scalar v) ∧ v.render = x := by
  induction p generalizing w with
  | nil => cases w <;> simp [toPlainValue, PlainValue.at?, Value.nodeAt?, Value.node]
  | cons k p ih =>
    cases w with
    | scalar v => simp [toPlainValue, PlainValue.at?, Value.nodeAt?]
    | subsection s =>
      rw [toPlainValue, PlainValue.at?, Value.nodeAt?, get?_toPlain]
      cases s.get? k with
      | none => simp
      | some v => exact ih

/-- A mapping with certain keys stands at a path exactly if a section with these keys shows
there. -/
theorem at?_toPlainValue_eq_mapping_iff :
    (∃ m, (toPlainValue w).at? p = some (.mapping m) ∧ m.keys = keys) ↔
      w.nodeAt? p = some (.keys keys) := by
  induction p generalizing w with
  | nil => cases w <;> simp [toPlainValue, PlainValue.at?, Value.nodeAt?, Value.node, keys_toPlain]
  | cons k p ih =>
    cases w with
    | scalar v => simp [toPlainValue, PlainValue.at?, Value.nodeAt?]
    | subsection s =>
      rw [toPlainValue, PlainValue.at?, Value.nodeAt?, get?_toPlain]
      cases s.get? k with
      | none => simp
      | some v => exact ih

end Section

end LayeredConfig
