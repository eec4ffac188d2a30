import LayeredConfig.Proofs.OrderedMap
import LayeredConfig.Section.Basic

/-!
# Paths into a section tree

A path is followed one name at a time, and this file gives the equations for that. `Everywhere P`
says that a property holds of a section and of all sections nested in it, which is how invariants
of whole trees are stated; `nested_induction` is the induction that goes with it.
-/

namespace LayeredConfig

/-- A scalar is no section. -/
@[simp] theorem Value.isSubsection_scalar (s : Scalar) : (Value.scalar s).isSubsection = false :=
  rfl

/-- A section is one. -/
@[simp] theorem Value.isSubsection_subsection (s : Section) :
    (Value.subsection s).isSubsection = true :=
  rfl

/-- A value is a section if it is made of one. -/
theorem Value.isSubsection_iff {v : Value} : v.isSubsection = true ↔ ∃ s, v = .subsection s := by
  cases v <;> simp

namespace Section

variable {s sub : Section} {k : String} {p q : List String} {e : Entry}

/-! ## One step -/

/-- A section is found under a key if the entry there holds it. -/
theorem subsection?_eq_some_iff :
    s.subsection? k = some sub ↔ ∃ attrs, s.entries.get? k = some ⟨.subsection sub, attrs⟩ := by
  unfold subsection? get?
  cases s.entries.get? k with
  | none => simp
  | some e =>
    obtain ⟨value, attrs⟩ := e
    cases value <;> simp [Value.subsection?]

/-- A section that an entry holds is found under its key. -/
theorem subsection?_of_get? {attrs : KeyAttrs}
    (h : s.entries.get? k = some ⟨.subsection sub, attrs⟩) : s.subsection? k = some sub :=
  subsection?_eq_some_iff.mpr ⟨attrs, h⟩

/-- The attributes of a key are those of its entry. -/
theorem attrs?_eq (s : Section) (k : String) :
    s.attrs? k = (s.entries.get? k).map (·.attrs) := rfl

/-- A key is protected if its entry is. -/
theorem isProtected_eq (s : Section) (k : String) :
    s.isProtected k = (s.entries.get? k).any (·.attrs.isProtected) := by
  rw [isProtected, attrs?_eq, Option.any_map]

/-! ## Whole paths -/

/-- A path to a section is followed from its first name on. -/
theorem sectionAt?_cons (s : Section) (k : String) (p : List String) :
    s.sectionAt? (k :: p) = (s.subsection? k).bind (·.sectionAt? p) := by
  simp [sectionAt?]

/-- A path to a section is followed in two parts. -/
theorem sectionAt?_append (s : Section) (p q : List String) :
    s.sectionAt? (p ++ q) = (s.sectionAt? p).bind (·.sectionAt? q) := by
  simp [sectionAt?]

/-- The entry at the end of a path is found in the section that holds it. -/
theorem entryAt?_concat (s : Section) (p : List String) (k : String) :
    s.entryAt? (p ++ [k]) = (s.sectionAt? p).bind (·.entries.get? k) := by
  simp [entryAt?]

/-- A path of one name leads to the entry of that name. -/
@[simp] theorem entryAt?_singleton (s : Section) (k : String) :
    s.entryAt? [k] = s.entries.get? k :=
  entryAt?_concat s [] k

/-- A longer path goes on in the section of its first name. -/
theorem entryAt?_cons (s : Section) (k : String) (hp : p ≠ []) :
    s.entryAt? (k :: p) = (s.subsection? k).bind (·.entryAt? p) := by
  obtain ⟨q, last, rfl⟩ := (List.eq_nil_or_concat' p).resolve_left hp
  rw [← List.cons_append, entryAt?_concat, sectionAt?_cons, Option.bind_assoc]
  exact congrArg _ (funext fun sub => (entryAt?_concat sub q last).symm)

/-- What is found at a path depends on the entry of its first key only. -/
theorem entryAt?_congr {s' : Section} (h : s.entries.get? k = s'.entries.get? k)
    (p : List String) : s.entryAt? (k :: p) = s'.entryAt? (k :: p) := by
  by_cases hp : p = []
  · rw [hp, entryAt?_singleton, entryAt?_singleton, h]
  · rw [entryAt?_cons s k hp, entryAt?_cons s' k hp, subsection?, subsection?, get?, get?, h]

/-- A path of one name leads to the value of that name. -/
theorem lookup?_singleton (s : Section) (k : String) :
    s.lookup? [k] = (s.entries.get? k).map (·.value) := by
  rw [lookup?, entryAt?_singleton]

/-- A longer path to a value goes on in the section of its first name. -/
theorem lookup?_cons (s : Section) (k : String) (hp : p ≠ []) :
    s.lookup? (k :: p) = (s.subsection? k).bind (·.lookup? p) := by
  rw [lookup?, entryAt?_cons s k hp, Option.map_bind]
  rfl

/-- A path to an entry that holds a section leads to this section. -/
theorem sectionAt?_of_entryAt? (h : s.entryAt? p = some e) (he : e.value = .subsection sub) :
    s.sectionAt? p = some sub := by
  rcases List.eq_nil_or_concat' p with rfl | ⟨q, k, rfl⟩
  · cases h
  · obtain ⟨s', hs', hget⟩ := Option.bind_eq_some_iff.mp ((entryAt?_concat s q k).symm.trans h)
    obtain ⟨value, attrs⟩ := e
    cases he
    rw [sectionAt?_append, hs', Option.bind_some, sectionAt?_cons, subsection?_of_get? hget]
    rfl

/-! ## Going down -/

/-- A nested section is smaller than the one around it. -/
theorem sizeOf_lt_of_mem {attrs : KeyAttrs}
    (h : (k, Entry.mk (.subsection sub) attrs) ∈ s.entries.toList) : sizeOf sub < sizeOf s := by
  obtain ⟨name, ⟨entries⟩⟩ := s
  have hlt := List.sizeOf_lt_of_mem h
  simp only [Prod.mk.sizeOf_spec, Entry.mk.sizeOf_spec, Value.subsection.sizeOf_spec,
    Section.mk.sizeOf_spec, OrderedMap.mk.sizeOf_spec] at hlt ⊢
  omega

/-- Induction on the depth of a tree: what holds of a section as soon as it holds of the sections
directly in it holds of all sections. -/
theorem nested_induction {motive : Section → Prop}
    (step : ∀ s, (∀ k sub attrs, (k, Entry.mk (.subsection sub) attrs) ∈ s.entries.toList →
      motive sub) → motive s) (s : Section) : motive s :=
  step s fun _ sub _ h => have := sizeOf_lt_of_mem h; nested_induction step sub
termination_by sizeOf s

/-- Induction over the sections that are found under the keys of a section. -/
theorem subsection_induction {motive : Section → Prop}
    (step : ∀ s, (∀ k sub, s.subsection? k = some sub → motive sub) → motive s) (s : Section) :
    motive s := by
  induction s using nested_induction with
  | step s ih =>
    refine step s fun k sub hsub => ?_
    obtain ⟨attrs, hget⟩ := subsection?_eq_some_iff.mp hsub
    exact ih k sub attrs (OrderedMap.mem_of_get? hget)

/-- A property of a section and of all sections nested in it, at any depth. -/
inductive Everywhere (P : Section → Prop) : Section → Prop
  | intro {s : Section} (here : P s)
      (below : ∀ k sub, s.subsection? k = some sub → Everywhere P sub) : Everywhere P s

/-- What holds everywhere holds of the section itself. -/
theorem Everywhere.holds {P : Section → Prop} (h : Everywhere P s) : P s := by
  cases h with | intro here _ => exact here

/-- What holds everywhere in a section holds everywhere in those nested in it. -/
theorem Everywhere.down {P : Section → Prop} (h : Everywhere P s)
    (hsub : s.subsection? k = some sub) : Everywhere P sub := by
  cases h with | intro _ below => exact below k sub hsub

/-- What holds everywhere in a section holds in the sections that its entries hold. -/
theorem Everywhere.of_get? {P : Section → Prop} (hs : s.Everywhere P)
    (h : s.entries.get? k = some e) (hvalue : e.value = .subsection sub) : sub.Everywhere P := by
  obtain ⟨value, attrs⟩ := e
  obtain rfl : value = .subsection sub := hvalue
  exact hs.down (subsection?_of_get? h)

/-- What follows from a property follows from it everywhere. -/
theorem Everywhere.imp {P Q : Section → Prop} (hPQ : ∀ s, P s → Q s) (h : Everywhere P s) :
    Everywhere Q s := by
  induction h with
  | intro here _ ih => exact .intro (hPQ _ here) ih

/-- A property that holds of a section, and everywhere in what its entries hold, holds
everywhere. -/
theorem Everywhere.of_toList {P : Section → Prop} (here : P s)
    (below : ∀ entry ∈ s.entries.toList, ∀ sub, entry.2.value = .subsection sub →
      Everywhere P sub) : Everywhere P s := by
  refine .intro here fun k sub hsub => ?_
  obtain ⟨attrs, hget⟩ := subsection?_eq_some_iff.mp hsub
  exact below _ (OrderedMap.mem_of_get? hget) sub rfl

/-- What holds everywhere holds in the section that a path leads to. -/
theorem Everywhere.sectionAt? {P : Section → Prop} (h : Everywhere P s)
    (hsub : s.sectionAt? p = some sub) : Everywhere P sub := by
  induction p generalizing s with
  | nil =>
    cases hsub
    exact h
  | cons k p ih =>
    rw [sectionAt?_cons] at hsub
    obtain ⟨sub', hsub', hsub⟩ := Option.bind_eq_some_iff.mp hsub
    exact ih (h.down hsub') hsub

/-- What holds at the end of every path holds everywhere. -/
theorem everywhere_of_sectionAt? {P : Section → Prop}
    (h : ∀ p sub, s.sectionAt? p = some sub → P sub) : Everywhere P s := by
  induction s using subsection_induction with
  | step s ih =>
    refine .intro (h [] s rfl) fun k sub hsub => ih k sub hsub fun p sub' hsub' => ?_
    refine h (k :: p) sub' ?_
    rw [sectionAt?_cons, hsub, Option.bind_some, hsub']

/-- The keys of a section are distinct, as every operation keeps them. -/
def KeysDistinct (s : Section) : Prop :=
  s.entries.keys.Nodup

instance : DecidablePred KeysDistinct :=
  fun s => inferInstanceAs (Decidable s.entries.keys.Nodup)

end Section

end LayeredConfig
