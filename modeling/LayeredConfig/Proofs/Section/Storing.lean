import LayeredConfig.Proofs.Section.Append
import LayeredConfig.Proofs.Section.Nodes
import LayeredConfig.Proofs.Section.Texts

/-!
# Storing a value in a tree

`putAt` puts an entry at the end of a path, whatever protection says. This is what an assignment and
a header do to a tree, if they are not refused (`Alters.updatesAt_iff`). When a scalar is stored
where no section is, no other scalar changes (`lookup?_putAt`), and which scalar it is does
not show in the layout of the tree (`sameLayouts_putAt`).
-/

namespace LayeredConfig.Section

variable {root r r' s s' sub : Section} {path p q : List String} {key name k : String} {e : Entry}
  {attrs : KeyAttrs} {v w : Scalar}

/-- The section with an entry at a key. -/
def put (s : Section) (key : String) (e : Entry) : Section :=
  { s with entries := s.entries.insert key e }

/-- The tree with an entry at a key of the section that a path leads to. -/
def putAt (root : Section) (path : List String) (key : String) (e : Entry) : Section :=
  (root.sectionAt? path).elim root fun s => root.replaceAt path (s.put key e)

/-- A path that leads to a section starts with the name of one. -/
theorem exists_get?_of_sectionAt? (h : (s.sectionAt? (name :: path)).isSome) :
    ∃ sub attrs, s.entries.get? name = some ⟨.subsection sub, attrs⟩ ∧
      (sub.sectionAt? path).isSome := by
  obtain ⟨last, hlast⟩ := Option.isSome_iff_exists.mp h
  rw [sectionAt?_cons] at hlast
  obtain ⟨sub, hsub, hlast⟩ := Option.bind_eq_some_iff.mp hlast
  obtain ⟨attrs, hget⟩ := subsection?_eq_some_iff.mp hsub
  exact ⟨sub, attrs, hget, Option.isSome_iff_exists.mpr ⟨last, hlast⟩⟩

/-- At the empty path, the entry is written into the section itself. -/
theorem putAt_nil_writes (s : Section) (key : String) (e : Entry) :
    s.Writes key e (s.putAt [] key e) :=
  .of_insert s key e

/-- Below a name, the section there is written back with the entry put into it. -/
theorem putAt_cons_writes (h : s.entries.get? name = some ⟨.subsection sub, attrs⟩)
    (hpath : (sub.sectionAt? path).isSome) (key : String) (e : Entry) :
    s.Writes name ⟨.subsection (sub.putAt path key e), attrs⟩ (s.putAt (name :: path) key e) := by
  have hsub := subsection?_of_get? h
  obtain ⟨last, hlast⟩ := Option.isSome_iff_exists.mp hpath
  have hput : s.putAt (name :: path) key e =
      { s with entries := s.entries.modify name fun e' =>
          { e' with value := .subsection (sub.putAt path key e) } } := by
    rw [putAt, putAt, sectionAt?_cons, hsub, Option.bind_some, hlast]
    exact replaceAt_cons hsub path (last.put key e)
  rw [hput]
  exact .of_modify h fun e' => { e' with value := .subsection (sub.putAt path key e) }

/-- With distinct keys, a write is determined by its key and its entry. -/
theorem Writes.eq_put (h : s.Writes key e s') (hs : s.KeysDistinct) : s' = s.put key e := by
  have hput := Writes.of_insert s key e
  have hentries : s'.entries = s.entries.insert key e :=
    OrderedMap.ext_get? (h.keysDistinct hs) (h.keys.trans hput.keys.symm)
      fun k => (h.get? k).trans (hput.get? k).symm
  obtain ⟨name, entries⟩ := s'
  rw [put, ← show name = s.name from h.name, ← show entries = s.entries.insert key e from hentries]

/-- Changing one key of the section at the end of a path stores the changed entry there. Headers and
assignments are changes of this kind. -/
theorem Alters.updatesAt_iff {ε : Type} {f : Section → Except ε Section}
    {G : Option Entry → Entry → Prop}
    (hf : Alters (fun s s' => f s = .ok s') key G) (hroot : root.Everywhere KeysDistinct)
    (hs : root.sectionAt? path = some s) :
    UpdatesAt f path root r ↔ ∃ e, G (s.entries.get? key) e ∧ r = root.putAt path key e := by
  -- the keys of the section are distinct, so that writing an entry is putting it
  have hdistinct : s.KeysDistinct := (hroot.sectionAt? hs).holds
  have hput : ∀ e, root.putAt path key e = root.replaceAt path (s.put key e) := by
    intro e
    rw [putAt, hs]
    rfl
  constructor
  · intro h
    obtain ⟨s₁, s', hs₁, hs', -⟩ := h.sectionAt?
    obtain rfl := Option.some.inj (hs.symm.trans hs₁)
    obtain ⟨e, he, hwrites⟩ := hf.writes hs'
    rw [UpdatesAt, updateAt_eq hs hs', hwrites.eq_put hdistinct] at h
    exact ⟨e, he, (hput e).symm ▸ (Except.ok.inj (Option.some.inj h)).symm⟩
  · rintro ⟨e, he, rfl⟩
    obtain ⟨s', hs', hwrites⟩ := hf.succeeds he
    rw [UpdatesAt, updateAt_eq hs hs', hwrites.eq_put hdistinct, hput]

/-! ## What shows afterwards -/

/-- After a write, what shows below a name is what shows in the entry written, or what showed
before. -/
theorem Writes.nodeAt?_cons (h : s.Writes key e s') (k : String) (q : List String) :
    s'.nodeAt? (k :: q) = if k = key then e.value.nodeAt? q else s.nodeAt? (k :: q) := by
  rw [Section.nodeAt?_cons, Section.nodeAt?_cons, Section.get?, Section.get?, h.get?]
  split <;> rfl

/-- Storing an entry shows at its own path and in the section around it, and nowhere else if nothing
else shows below it than did before. -/
theorem nodeAt?_putAt (hs : root.sectionAt? path = some s)
    (hbelow : ∀ q, q ≠ [] → e.value.nodeAt? q = root.nodeAt? (path ++ key :: q)) (q : List String) :
    (root.putAt path key e).nodeAt? q =
      if q = path ++ [key] then some e.value.node
      else if q = path then some (.keys (s.put key e).entries.keys)
      else root.nodeAt? q := by
  induction path generalizing root q with
  | nil =>
    obtain rfl : root = s := Option.some.inj hs
    cases q with
    | nil => rfl
    | cons k q =>
      rw [(putAt_nil_writes root key e).nodeAt?_cons, if_neg (List.cons_ne_nil k q)]
      by_cases hk : k = key
      · subst hk
        by_cases hq : q = []
        · rw [hq, if_pos rfl, if_pos (List.nil_append [k]).symm]
          cases e.value <;> rfl
        · rw [if_pos rfl, if_neg (by simpa using hq)]
          exact hbelow q hq
      · rw [if_neg hk, if_neg (by simp [hk])]
  | cons name path ih =>
    obtain ⟨sub, attrs, hget, hpath⟩ := exists_get?_of_sectionAt? (Option.isSome_of_eq_some hs)
    have hwrites := putAt_cons_writes hget hpath key e
    have hsub := subsection?_of_get? hget
    -- below the first name, the tree shows what the section there shows
    have hnode : ∀ q, root.nodeAt? (name :: q) = sub.nodeAt? q := by
      intro q
      rw [Section.nodeAt?_cons, Section.get?, hget]
      rfl
    cases q with
    | nil =>
      have hname : name ∈ root.entries.keys := OrderedMap.mem_keys_of_get? hget
      have hne : ∀ ks, [] ≠ name :: ks := fun ks => (List.cons_ne_nil name ks).symm
      rw [List.cons_append, if_neg (hne _), if_neg (hne _), nodeAt?_nil, nodeAt?_nil, hwrites.keys,
        if_pos hname]
    | cons k q =>
      rw [hwrites.nodeAt?_cons]
      by_cases hk : k = name
      · subst hk
        rw [sectionAt?_cons, hsub, Option.bind_some] at hs
        have hrest := ih hs (fun q hq => by rw [hbelow q hq, List.cons_append, hnode]) q
        rw [if_pos rfl, hnode]
        simp only [List.cons_append, List.cons.injEq, true_and]
        exact hrest
      · rw [if_neg hk, if_neg (by simp [hk]), if_neg (by simp [hk])]

/-- Two trees hold the same scalars, but for the value of one key. -/
def SameScalarsBut (p : List String) (s s' : Section) : Prop :=
  ∀ q v, q ≠ p → (s.lookup? q = some (.scalar v) ↔ s'.lookup? q = some (.scalar v))

/-- Holding the same scalars but for one key is symmetric. -/
theorem SameScalarsBut.symm (h : SameScalarsBut p s s') : SameScalarsBut p s' s :=
  fun q v hq => (h q v hq).symm

/-- Holding the same scalars but for one key is transitive. -/
theorem SameScalarsBut.trans (h : SameScalarsBut p s s') (h' : SameScalarsBut p s' r) :
    SameScalarsBut p s r :=
  fun q v hq => (h q v hq).trans (h' q v hq)

/-- There is nothing below a key that does not hold a section. -/
theorem nodeAt?_below (hs : root.sectionAt? path = some s)
    (hfree : ∀ s, root.lookup? (path ++ [key]) ≠ some (.subsection s)) (hq : q ≠ []) :
    root.nodeAt? (path ++ key :: q) = none := by
  rw [nodeAt?_append hs, nodeAt?_cons]
  cases hget : s.get? key with
  | none => rfl
  | some value =>
    cases value with
    | scalar v =>
      obtain ⟨k, q, rfl⟩ := List.exists_cons_of_ne_nil hq
      rfl
    | subsection sub =>
      refine absurd ?_ (hfree sub)
      rw [lookup?, entryAt?_concat, hs, Option.bind_some]
      exact hget

/-- A scalar that is not put in place of a section shows at its own key, and changes no other
scalar. -/
theorem lookup?_putAt (hpath : (root.sectionAt? path).isSome)
    (hfree : ∀ s, root.lookup? (path ++ [key]) ≠ some (.subsection s)) (v : Scalar)
    (attrs : KeyAttrs) :
    (root.putAt path key ⟨.scalar v, attrs⟩).lookup? (path ++ [key]) = some (.scalar v) ∧
      SameScalarsBut (path ++ [key]) root (root.putAt path key ⟨.scalar v, attrs⟩) := by
  obtain ⟨s, hs⟩ := Option.isSome_iff_exists.mp hpath
  -- no section is overwritten, so that nothing shows below the key, before or after
  have hbelow : ∀ q, q ≠ [] → (Value.scalar v).nodeAt? q = root.nodeAt? (path ++ key :: q) := by
    intro q hq
    rw [nodeAt?_below hs hfree hq]
    obtain ⟨k, q, rfl⟩ := List.exists_cons_of_ne_nil hq
    rfl
  have hnode := nodeAt?_putAt (e := ⟨.scalar v, attrs⟩) hs hbelow
  constructor
  · rw [← nodeAt?_eq_scalar_iff, hnode, if_pos rfl]
    rfl
  · intro q w hq
    rw [← nodeAt?_eq_scalar_iff, ← nodeAt?_eq_scalar_iff, hnode, if_neg hq]
    by_cases hqpath : q = path
    · -- a section before and after
      rw [if_pos hqpath, hqpath, nodeAt?_eq_keys_iff.mpr ⟨s, hs, rfl⟩]
      exact ⟨nofun, nofun⟩
    · rw [if_neg hqpath]

/-! ## What is kept -/

/-- What every write of a key keeps holds of a tree after storing a scalar in it. -/
theorem everywhere_putAt {P : Section → Prop}
    (hP : ∀ {s s' : Section} {k : String} {e : Entry}, P s → k = key ∨ k ∈ s.entries.keys →
      s.Writes k e s' → P s')
    (hroot : root.Everywhere P) (hpath : (root.sectionAt? path).isSome) :
    (root.putAt path key ⟨.scalar v, attrs⟩).Everywhere P := by
  induction path generalizing root with
  | nil =>
    have hwrites := putAt_nil_writes root key ⟨.scalar v, attrs⟩
    exact hwrites.everywhere hroot (hP hroot.holds (Or.inl rfl) hwrites) nofun
  | cons name path ih =>
    obtain ⟨sub, attrs', hget, hpath'⟩ := exists_get?_of_sectionAt? hpath
    have hwrites := putAt_cons_writes hget hpath' key ⟨.scalar v, attrs⟩
    have hname : name ∈ root.entries.keys := OrderedMap.mem_keys_of_get? hget
    refine hwrites.everywhere hroot (hP hroot.holds (Or.inr hname) hwrites) ?_
    rintro _ ⟨⟩
    exact ih (hroot.down (subsection?_of_get? hget)) hpath'

/-- Putting a scalar into a tree keeps keys distinct on every level. -/
theorem keysDistinct_putAt (hroot : root.Everywhere KeysDistinct)
    (hpath : (root.sectionAt? path).isSome) :
    (root.putAt path key ⟨.scalar v, attrs⟩).Everywhere KeysDistinct :=
  everywhere_putAt (fun hs _ hwrites => hwrites.keysDistinct hs) hroot hpath

/-- Putting a scalar under a name without a colon leaves a tree without colons. -/
theorem colonless_putAt (hroot : root.Everywhere Colonless) (hkey : ':' ∉ key.toList)
    (hpath : (root.sectionAt? path).isSome) :
    (root.putAt path key ⟨.scalar v, attrs⟩).Everywhere Colonless := by
  refine everywhere_putAt (fun {s s' k e} hs hk hwrites => ?_) hroot hpath
  intro k' hk'
  rcases hwrites.mem_keys_iff.mp hk' with rfl | hk'
  · rcases hk with rfl | hk
    · exact hkey
    · exact hs k' hk
  · exact hs k' hk'

/-- Below other keys than the one that is written, nothing changes. -/
theorem Writes.sectionAt?_of_ne (h : s.Writes key e s') (hk : k ≠ key) (q : List String) :
    s'.sectionAt? (k :: q) = s.sectionAt? (k :: q) := by
  rw [sectionAt?_cons, sectionAt?_cons, subsection?, subsection?, Section.get?, Section.get?,
    h.get?_of_ne hk]

/-- Writing entries of one shape at one key leaves trees of the same layout. -/
theorem sameLayouts_of_writes {e' : Entry} (hs : s.KeysDistinct) (h : s.Writes key e r)
    (h' : s.Writes key e' r') (hshape : shape e = shape e')
    (hbelow : ∀ sub sub', e.value = .subsection sub → e'.value = .subsection sub' →
      SameLayouts sub sub') : SameLayouts r r' := by
  intro q
  cases q with
  | nil =>
    refine congrArg some ((layout_eq_iff (h.keysDistinct hs)).mpr ⟨?_, ?_, fun k => ?_⟩)
    · rw [h.name, h'.name]
    · rw [h.keys, h'.keys]
    · rw [h.get?, h'.get?]
      split
      · rw [Option.map_some, Option.map_some, hshape]
      · rfl
  | cons k q =>
    by_cases hk : k = key
    · subst hk
      rw [sectionAt?_cons, sectionAt?_cons, subsection?, subsection?, Section.get?, Section.get?,
        h.get?_self, h'.get?_self]
      obtain ⟨value, attrs⟩ := e
      obtain ⟨value', attrs'⟩ := e'
      -- the two entries have the same shape, so that both are scalars or both are sections
      have hsubsection : value.isSubsection = value'.isSubsection := congrArg Prod.snd hshape
      cases value with
      | scalar v =>
        cases value' with
        | scalar w => rfl
        | subsection sub' => cases hsubsection
      | subsection sub =>
        cases value' with
        | scalar w => cases hsubsection
        | subsection sub' => exact hbelow sub sub' rfl rfl q
    · rw [h.sectionAt?_of_ne hk, h'.sectionAt?_of_ne hk]

/-- Two scalars put at the same place give trees of the same layout. -/
theorem sameLayouts_putAt (hroot : root.Everywhere KeysDistinct)
    (hpath : (root.sectionAt? path).isSome) :
    SameLayouts (root.putAt path key ⟨.scalar v, attrs⟩)
      (root.putAt path key ⟨.scalar w, attrs⟩) := by
  induction path generalizing root with
  | nil =>
    exact sameLayouts_of_writes hroot.holds (putAt_nil_writes root key _)
      (putAt_nil_writes root key _) rfl nofun
  | cons name path ih =>
    obtain ⟨sub, attrs', hget, hpath'⟩ := exists_get?_of_sectionAt? hpath
    refine sameLayouts_of_writes hroot.holds (putAt_cons_writes hget hpath' key _)
      (putAt_cons_writes hget hpath' key _) rfl ?_
    rintro _ _ ⟨⟩ ⟨⟩
    exact ih (hroot.down (subsection?_of_get? hget)) hpath'

end LayeredConfig.Section
