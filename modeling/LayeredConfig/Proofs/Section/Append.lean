import LayeredConfig.Proofs.Section.Write

/-!
# Sections that grow at the end

A document that writes every key once only ever appends to its sections. `append` does so with
whole entries, and `replaceAt` puts a changed section back into the tree; with the two, what a run
of items does to a tree is an equation, where `UpdatesAt` is a relation.
-/

namespace LayeredConfig

namespace OrderedMap

variable {α : Type u} {map : OrderedMap α} {key : String}

/-- A new key is inserted at the end. -/
theorem insert_of_not_mem (h : key ∉ map.keys) (v : α) :
    map.insert key v = ⟨map.toList ++ [(key, v)]⟩ := by
  obtain ⟨entries⟩ := map
  rw [insert]
  congr 1
  induction entries with
  | nil => rfl
  | cons entry entries ih =>
    obtain ⟨k, v'⟩ := entry
    have hne : k ≠ key := fun heq => h (heq ▸ List.mem_cons_self)
    have htail : key ∉ (OrderedMap.mk entries).keys := fun hmem => h (List.mem_cons_of_mem k hmem)
    rw [insertEntry, if_neg hne, ih htail, List.cons_append]

/-- Modifying the last key of a map reaches the last entry, provided the key does not occur before
it. -/
theorem modify_concat_of_not_mem (h : key ∉ map.keys) (v : α) (f : α → α) :
    (OrderedMap.mk (map.toList ++ [(key, v)])).modify key f = ⟨map.toList ++ [(key, f v)]⟩ := by
  obtain ⟨entries⟩ := map
  rw [modify]
  congr 1
  induction entries with
  | nil => simp only [List.nil_append, List.map_cons, List.map_nil, if_true]
  | cons entry entries ih =>
    obtain ⟨k, v'⟩ := entry
    -- the key is not that of an entry in front, which is therefore passed over
    have hne : k ≠ key := fun heq => h (heq ▸ List.mem_cons_self)
    have htail : key ∉ (OrderedMap.mk entries).keys := fun hmem => h (List.mem_cons_of_mem k hmem)
    rw [List.cons_append, List.map_cons, ih htail, List.cons_append]
    simp only [if_neg hne]

/-- The last entry is found under its key, provided the key does not occur before it. -/
theorem get?_concat_of_not_mem (h : key ∉ map.keys) (v : α) :
    (OrderedMap.mk (map.toList ++ [(key, v)])).get? key = some v := by
  rw [← insert_of_not_mem h, get?_insert, if_pos rfl]

end OrderedMap

namespace Section

variable {s s' s'' sub x : Section} {key name : String} {path q : List String} {e : Entry}
  {ε : Type}

/-! ## Putting a section back -/

/-- The tree with another section at the end of a path that leads to one. -/
def replaceAt (s : Section) : (path : List String) → Section → Section
  | [], s' => s'
  | name :: path, s' =>
    match s.subsection? name with
    | none => s
    | some sub =>
      { s with entries := s.entries.modify name fun e =>
          { e with value := .subsection (sub.replaceAt path s') } }

/-- Replacing below a name is replacing inside the section of this name. -/
theorem replaceAt_cons (h : s.subsection? name = some sub) (path : List String) (s' : Section) :
    s.replaceAt (name :: path) s' =
      { s with entries := s.entries.modify name fun e =>
          { e with value := .subsection (sub.replaceAt path s') } } := by
  rw [replaceAt, h]

/-- After a replacement below a name, the section of this name is the old one with the replacement
made in it. -/
theorem subsection?_replaceAt_cons (h : s.subsection? name = some sub) (path : List String)
    (s' : Section) :
    (s.replaceAt (name :: path) s').subsection? name = some (sub.replaceAt path s') := by
  obtain ⟨attrs, hget⟩ := subsection?_eq_some_iff.mp h
  rw [replaceAt_cons h]
  refine subsection?_eq_some_iff.mpr ⟨attrs, ?_⟩
  rw [OrderedMap.get?_modify, if_pos rfl, hget, Option.map_some]

/-- A change of the section at the end of a path puts the changed section back. -/
theorem updateAt_eq {f : Section → Except ε Section} {r : Section}
    (hs : r.sectionAt? path = some s) (hf : f s = .ok s') :
    r.updateAt path f = some (.ok (r.replaceAt path s')) := by
  induction path generalizing r with
  | nil =>
    obtain rfl : r = s := Option.some.inj hs
    rw [updateAt, hf, replaceAt]
  | cons name path ih =>
    rw [sectionAt?_cons] at hs
    obtain ⟨sub, hsub, hs⟩ := Option.bind_eq_some_iff.mp hs
    rw [updateAt, hsub, replaceAt_cons hsub]
    simp only [ih hs, Option.map_some, Except.map]

/-- What was put at a path is found there. -/
theorem sectionAt?_replaceAt {r : Section} (hs : r.sectionAt? path = some s) (s' : Section) :
    (r.replaceAt path s').sectionAt? path = some s' := by
  induction path generalizing r with
  | nil => rfl
  | cons name path ih =>
    rw [sectionAt?_cons] at hs
    obtain ⟨sub, hsub, hs⟩ := Option.bind_eq_some_iff.mp hs
    rw [sectionAt?_cons, subsection?_replaceAt_cons hsub, Option.bind_some, ih hs]

/-- Of two changes of the value under one key the second stands. -/
theorem modify_modify_value (entries : OrderedMap Entry) (name : String) (v v' : Value) :
    ((entries.modify name fun e => { e with value := v }).modify name fun e =>
      { e with value := v' }) = entries.modify name fun e => { e with value := v' } := by
  simp only [OrderedMap.modify, List.map_map]
  congr 1
  refine List.map_congr_left fun entry _ => ?_
  by_cases h : entry.1 = name <;> simp [h]

/-- Of two sections that are put at the same place, the second stays. -/
theorem replaceAt_replaceAt {r : Section} (hs : r.sectionAt? path = some s) (s' s'' : Section) :
    (r.replaceAt path s').replaceAt path s'' = r.replaceAt path s'' := by
  induction path generalizing r with
  | nil => rfl
  | cons name path ih =>
    rw [sectionAt?_cons] at hs
    obtain ⟨sub, hsub, hs⟩ := Option.bind_eq_some_iff.mp hs
    rw [replaceAt_cons (subsection?_replaceAt_cons hsub path s'), ih hs, replaceAt_cons hsub,
      replaceAt_cons hsub]
    simp only [modify_modify_value]

/-- Below a longer path, a section is put back into the section on the way, and that into the tree.
-/
theorem replaceAt_append {r : Section} (hs : r.sectionAt? path = some s) (q : List String)
    (x : Section) : r.replaceAt (path ++ q) x = r.replaceAt path (s.replaceAt q x) := by
  induction path generalizing r with
  | nil =>
    obtain rfl : r = s := Option.some.inj hs
    rfl
  | cons name path ih =>
    rw [sectionAt?_cons] at hs
    obtain ⟨sub, hsub, hs⟩ := Option.bind_eq_some_iff.mp hs
    rw [List.cons_append, replaceAt_cons hsub, ih hs, replaceAt_cons hsub]

/-! ## Appending -/

/-- A section with more entries behind its own. -/
def append (s : Section) (entries : List (String × Entry)) : Section :=
  { s with entries := ⟨s.entries.toList ++ entries⟩ }

/-- Nothing is appended by an empty list. -/
theorem append_nil (s : Section) : s.append [] = s := by
  obtain ⟨name, ⟨entries⟩⟩ := s
  rw [append, List.append_nil]

/-- Two lists are appended one after the other, or both at once. -/
theorem append_append (s : Section) (as bs : List (String × Entry)) :
    (s.append as).append bs = s.append (as ++ bs) := by
  rw [append, append, append, List.append_assoc]

/-- The keys of an extended section are its own and the appended ones. -/
theorem mem_keys_append {as : List (String × Entry)} :
    key ∈ (s.append as).entries.keys ↔ key ∈ s.entries.keys ∨ key ∈ as.map (·.1) := by
  rw [append, OrderedMap.keys, List.map_append, List.mem_append, OrderedMap.keys]

/-- Keys that are still to come are new after another key, too. -/
theorem not_mem_keys_append_singleton {keys : List String} (h : ∀ k ∈ keys, k ∉ s.entries.keys)
    (hkey : key ∉ keys) : ∀ k ∈ keys, k ∉ (s.append [(key, e)]).entries.keys := by
  intro k hk hmem
  rcases mem_keys_append.mp hmem with hmem | hmem
  · exact h k hk hmem
  · obtain rfl := List.mem_singleton.mp hmem
    exact hkey hk

/-- Changing the attributes of the last one of some entries. -/
theorem modifyAttrs_append_singleton (h : key ∉ s.entries.keys) (e : Entry)
    (f : KeyAttrs → KeyAttrs) :
    (s.append [(key, e)]).modifyAttrs key f = s.append [(key, { e with attrs := f e.attrs })] := by
  rw [modifyAttrs, append, OrderedMap.modify_concat_of_not_mem h, append]

/-- Writing a new key appends it, with one definition and without flags. -/
theorem setAt_of_not_mem (h : key ∉ s.entries.keys) (value : Value) (origin : Origin) :
    s.setAt key value origin =
      .ok (s.append [(key, ⟨value, { history := .ofOrigin origin }⟩)]) := by
  have hnone : s.entries.get? key = none := OrderedMap.get?_eq_none_iff.mpr h
  have hset : s.set key value = .ok (s.append [(key, ⟨value, {}⟩)]) := by
    rw [set, isProtected_eq, attrs?_eq, hnone, Option.any_none, if_neg Bool.false_ne_true]
    dsimp only
    rw [OrderedMap.insert_of_not_mem h]
    rfl
  rw [setAt, hset, Except.map, record, modifyAttrs_append_singleton h]
  rfl

/-- The last one of some entries is a section, and another one is put in its place. -/
theorem replaceAt_append_singleton (h : key ∉ s.entries.keys) (sub x : Section)
    (attrs : KeyAttrs) :
    (s.append [(key, ⟨.subsection sub, attrs⟩)]).replaceAt [key] x =
      s.append [(key, ⟨.subsection x, attrs⟩)] := by
  have hsub : (s.append [(key, ⟨.subsection sub, attrs⟩)]).subsection? key = some sub :=
    subsection?_of_get? (OrderedMap.get?_concat_of_not_mem h _)
  rw [replaceAt_cons hsub, append, OrderedMap.modify_concat_of_not_mem h, append]
  rfl

end Section

end LayeredConfig
