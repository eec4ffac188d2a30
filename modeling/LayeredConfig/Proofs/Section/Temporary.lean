import LayeredConfig.Proofs.Section.Paths
import LayeredConfig.Section.Write

/-!
# Dropping temporary keys

What is left of a tree without its temporary keys is the tree restricted to the paths on which no
key is temporary (`restricts_dropTemporaryDeep`): such a path leads where it led before, and any
other path leads nowhere. At the end of a path, the keys that are left keep their order, their
attributes and their values, of which a section shows by its own paths what is left of it.
-/

namespace LayeredConfig

/-- The scalar that a value is, if it is one. -/
def Value.scalar? : Value → Option Scalar
  | .scalar s => some s
  | .subsection _ => none

namespace Section

variable {s sub : Section} {k : String} {p q : List String} {e e' : Entry}

/-- None of the keys along a path is temporary. -/
def LastingAlong (s : Section) (p : List String) : Prop :=
  ∀ q e, q <+: p → s.entryAt? q = some e → e.attrs.flags.temporary = false

/-- A key with its attributes and, unless it holds a section, its value. -/
def outlineEntry (entry : String × Entry) : String × KeyAttrs × Option Scalar :=
  (entry.1, entry.2.attrs, entry.2.value.scalar?)

/-- A section without what is nested in it: its name, and in order its keys with their attributes
and those of their values that are scalars. -/
def outline (s : Section) : Option String × List (String × KeyAttrs × Option Scalar) :=
  (s.name, s.entries.toList.map outlineEntry)

/-- The outline of a section once its temporary keys are dropped. -/
def lastingOutline (s : Section) : Option String × List (String × KeyAttrs × Option Scalar) :=
  (s.name, (s.entries.toList.filter fun entry => !entry.2.attrs.flags.temporary).map outlineEntry)

/-- The tree `s` is `full` restricted to the paths on which no key is temporary. -/
structure Restricts (full s : Section) : Prop where
  lasting : ∀ p, full.LastingAlong p →
    (s.sectionAt? p).map outline = (full.sectionAt? p).map lastingOutline
  dropped : ∀ p, ¬ full.LastingAlong p → s.entryAt? p = none ∧ s.sectionAt? p = none

/-! ## One section -/

/-- What is left of an entry. -/
def withoutTemporary (e : Entry) : Entry :=
  ⟨dropTemporaryValue e.value, e.attrs⟩

/-- Dropping filters the entries and goes on in those that are left. -/
theorem dropTemporaryEntries_eq (entries : List (String × Entry)) :
    dropTemporaryEntries entries =
      (entries.filter fun entry => !entry.2.attrs.flags.temporary).map fun entry =>
        (entry.1, withoutTemporary entry.2) := by
  induction entries with
  | nil => rfl
  | cons entry entries ih =>
    obtain ⟨key, value, attrs⟩ := entry
    rw [dropTemporaryEntries, ih]
    by_cases htemporary : attrs.flags.temporary = true
    · rw [if_pos htemporary, List.filter_cons_of_neg (by simp [htemporary])]
    · rw [if_neg htemporary, List.filter_cons_of_pos (by simp [htemporary]), List.map_cons]
      rfl

/-- Dropping the temporary keys of a section keeps its name. -/
theorem dropTemporaryDeep_eq (s : Section) :
    s.dropTemporaryDeep = ⟨s.name, ⟨dropTemporaryEntries s.entries.toList⟩⟩ := by
  obtain ⟨name, ⟨entries⟩⟩ := s
  rfl

/-- A scalar is left as it is. -/
theorem scalar?_dropTemporaryValue (v : Value) : (dropTemporaryValue v).scalar? = v.scalar? := by
  cases v <;> rfl

/-- The outline of what is left is that of the lasting keys. -/
theorem outline_dropTemporaryDeep (s : Section) :
    s.dropTemporaryDeep.outline = s.lastingOutline := by
  rw [dropTemporaryDeep_eq, outline, lastingOutline, dropTemporaryEntries_eq, List.map_map]
  refine congrArg (Prod.mk s.name) (List.map_congr_left fun entry _ => ?_)
  simp only [Function.comp_apply, outlineEntry, withoutTemporary, scalar?_dropTemporaryValue]

/-- Of a key that is there, all that is left is what is not temporary. -/
theorem get?_dropTemporaryDeep (hs : s.KeysDistinct) (k : String) :
    s.dropTemporaryDeep.entries.get? k =
      ((s.entries.get? k).filter fun e => !e.attrs.flags.temporary).map withoutTemporary := by
  obtain ⟨name, ⟨entries⟩⟩ := s
  rw [dropTemporaryDeep_eq, dropTemporaryEntries_eq]
  simp only [OrderedMap.get?]
  replace hs : (entries.map (·.1)).Nodup := hs
  induction entries with
  | nil => rfl
  | cons entry entries ih =>
    obtain ⟨key, e⟩ := entry
    obtain ⟨hnew, hrest⟩ := List.nodup_cons.mp hs
    have hnone : entries.lookup key = none := OrderedMap.lookup_eq_none_iff.mpr hnew
    by_cases htemporary : e.attrs.flags.temporary = true
    · rw [List.filter_cons_of_neg (by simp [htemporary]), ih hrest, OrderedMap.lookup_cons_ite]
      by_cases hk : k = key
      · -- the other keys are distinct from this one, so dropping it leaves nothing there
        rw [if_pos hk, hk, hnone, Option.filter_some, if_neg (by simp [htemporary])]
        rfl
      · rw [if_neg hk]
    · rw [List.filter_cons_of_pos (by simp [htemporary]), List.map_cons,
        OrderedMap.lookup_cons_ite, OrderedMap.lookup_cons_ite, ih hrest]
      by_cases hk : k = key
      · rw [if_pos hk, if_pos hk, Option.filter_some, if_pos (by simp [htemporary])]
        rfl
      · rw [if_neg hk, if_neg hk]

/-- An entry is left under a key exactly if there was a lasting one. -/
theorem get?_dropTemporaryDeep_eq_some_iff (hs : s.KeysDistinct) :
    s.dropTemporaryDeep.entries.get? k = some e' ↔
      ∃ e, s.entries.get? k = some e ∧ e.attrs.flags.temporary = false ∧
        e' = withoutTemporary e := by
  rw [get?_dropTemporaryDeep hs, Option.map_eq_some_iff]
  constructor
  · rintro ⟨e, he, rfl⟩
    obtain ⟨hget, hlasting⟩ := Option.filter_eq_some_iff.mp he
    exact ⟨e, hget, by simpa using hlasting, rfl⟩
  · rintro ⟨e, hget, hlasting, rfl⟩
    exact ⟨e, Option.filter_eq_some_iff.mpr ⟨hget, by simpa using hlasting⟩, rfl⟩

/-- A section is left under a key exactly if there was a lasting one. -/
theorem subsection?_dropTemporaryDeep_eq_some_iff (hs : s.KeysDistinct) {sub' : Section} :
    s.dropTemporaryDeep.subsection? k = some sub' ↔
      ∃ sub attrs, s.entries.get? k = some ⟨.subsection sub, attrs⟩ ∧
        attrs.flags.temporary = false ∧ sub' = sub.dropTemporaryDeep := by
  rw [subsection?_eq_some_iff]
  constructor
  · rintro ⟨attrs, hget⟩
    obtain ⟨⟨value, attrs⟩, he, hlasting, heq⟩ := (get?_dropTemporaryDeep_eq_some_iff hs).mp hget
    cases value with
    | scalar v => cases heq
    | subsection sub =>
      cases heq
      exact ⟨sub, attrs, he, hlasting, rfl⟩
  · rintro ⟨sub, attrs, hget, hlasting, rfl⟩
    exact ⟨attrs, (get?_dropTemporaryDeep_eq_some_iff hs).mpr ⟨_, hget, hlasting, rfl⟩⟩

/-! ## Paths -/

/-- A path is lasting if its first key is, and the rest is in the section there. -/
theorem lastingAlong_cons_iff :
    s.LastingAlong (k :: p) ↔
      (∀ e, s.entries.get? k = some e → e.attrs.flags.temporary = false) ∧
        ∀ sub, s.subsection? k = some sub → sub.LastingAlong p := by
  constructor
  · intro h
    refine ⟨fun e he => h [k] e ⟨p, rfl⟩ (by rwa [entryAt?_singleton]), ?_⟩
    intro sub hsub q e hq he
    have hne : q ≠ [] := by
      rintro rfl
      cases he
    refine h (k :: q) e (List.cons_prefix_cons.mpr ⟨rfl, hq⟩) ?_
    rw [entryAt?_cons s k hne, hsub, Option.bind_some, he]
  · rintro ⟨hhere, hbelow⟩ q e hq he
    rcases List.prefix_cons_iff.mp hq with rfl | ⟨q, rfl, hqp⟩
    · cases he
    · by_cases hne : q = []
      · subst hne
        rw [entryAt?_singleton] at he
        exact hhere e he
      · rw [entryAt?_cons s k hne] at he
        obtain ⟨sub, hsub, he⟩ := Option.bind_eq_some_iff.mp he
        exact hbelow sub hsub q e hqp he

/-- Every beginning of a lasting path is lasting. -/
theorem LastingAlong.of_prefix (h : s.LastingAlong p) (hq : q <+: p) : s.LastingAlong q :=
  fun r e hr he => h r e (hr.trans hq) he

/-- A path on which no key is temporary leads to what is left of the section there. -/
theorem sectionAt?_dropTemporaryDeep (hs : s.Everywhere KeysDistinct) (h : s.LastingAlong p) :
    s.dropTemporaryDeep.sectionAt? p = (s.sectionAt? p).map dropTemporaryDeep := by
  induction p generalizing s with
  | nil => rfl
  | cons k p ih =>
    obtain ⟨hhere, hbelow⟩ := lastingAlong_cons_iff.mp h
    rw [sectionAt?_cons, sectionAt?_cons]
    cases hsub : s.subsection? k with
    | some sub =>
      obtain ⟨attrs, hget⟩ := subsection?_eq_some_iff.mp hsub
      have hsub' : s.dropTemporaryDeep.subsection? k = some sub.dropTemporaryDeep :=
        (subsection?_dropTemporaryDeep_eq_some_iff hs.holds).mpr
          ⟨sub, attrs, hget, hhere _ hget, rfl⟩
      rw [hsub', Option.bind_some, Option.bind_some, ih (hs.down hsub) (hbelow sub hsub)]
    | none =>
      -- a section that is left was there before
      have hsub' : s.dropTemporaryDeep.subsection? k = none := by
        rw [Option.eq_none_iff_forall_ne_some]
        intro sub' hsome
        obtain ⟨sub, attrs, hget, -⟩ :=
          (subsection?_dropTemporaryDeep_eq_some_iff hs.holds).mp hsome
        rw [subsection?_of_get? hget] at hsub
        cases hsub
      rw [hsub']
      rfl

/-- Where a key is left, none on the way to it is temporary, and its entry is what is left of the
one that was there. -/
theorem entryAt?_dropTemporaryDeep (hs : s.Everywhere KeysDistinct)
    (h : s.dropTemporaryDeep.entryAt? p = some e') :
    s.LastingAlong p ∧ ∃ e, s.entryAt? p = some e ∧ e' = withoutTemporary e := by
  induction p generalizing s with
  | nil => cases h
  | cons k p ih =>
    rw [lastingAlong_cons_iff]
    by_cases hp : p = []
    · subst hp
      rw [entryAt?_singleton] at h ⊢
      obtain ⟨e, he, hlasting, rfl⟩ := (get?_dropTemporaryDeep_eq_some_iff hs.holds).mp h
      refine ⟨⟨?_, ?_⟩, e, he, rfl⟩
      · intro e₁ he₁
        obtain rfl := Option.some.inj (he.symm.trans he₁)
        exact hlasting
      · rintro sub - q e₁ hq he₁
        obtain rfl := List.prefix_nil.mp hq
        cases he₁
    · rw [entryAt?_cons _ k hp] at h ⊢
      obtain ⟨sub', hsub', h⟩ := Option.bind_eq_some_iff.mp h
      obtain ⟨sub, attrs, hget, hlasting, rfl⟩ :=
        (subsection?_dropTemporaryDeep_eq_some_iff hs.holds).mp hsub'
      have hsub := subsection?_of_get? hget
      -- the section on the way is lasting itself, and the rest of the path is lasting in it
      obtain ⟨hbelow, e, he, heq⟩ := ih (hs.down hsub) h
      refine ⟨⟨?_, ?_⟩, e, by rw [hsub, Option.bind_some, he], heq⟩
      · intro e₁ he₁
        obtain rfl := Option.some.inj (hget.symm.trans he₁)
        exact hlasting
      · intro sub₁ hsub₁
        obtain rfl := Option.some.inj (hsub.symm.trans hsub₁)
        exact hbelow

/-- An entry at the end of a lasting path is left. -/
theorem entryAt?_of_lastingAlong (hs : s.Everywhere KeysDistinct) (h : s.LastingAlong p)
    (he : s.entryAt? p = some e) : s.dropTemporaryDeep.entryAt? p = some (withoutTemporary e) := by
  have hlasting : e.attrs.flags.temporary = false := h p e (List.prefix_refl p) he
  rcases List.eq_nil_or_concat' p with rfl | ⟨q, k, rfl⟩
  · cases he
  · rw [entryAt?_concat] at he ⊢
    obtain ⟨sub, hsub, he⟩ := Option.bind_eq_some_iff.mp he
    rw [sectionAt?_dropTemporaryDeep hs (h.of_prefix (List.prefix_append q [k])), hsub,
      Option.map_some, Option.bind_some]
    exact (get?_dropTemporaryDeep_eq_some_iff (hs.sectionAt? hsub).holds).mpr
      ⟨e, he, hlasting, rfl⟩

/-- A section at the end of a path has an entry there. -/
theorem exists_entryAt?_of_sectionAt? (hp : p ≠ []) (h : s.sectionAt? p = some sub) :
    ∃ attrs, s.entryAt? p = some ⟨.subsection sub, attrs⟩ := by
  obtain ⟨q, k, rfl⟩ := (List.eq_nil_or_concat' p).resolve_left hp
  rw [sectionAt?_append] at h
  obtain ⟨parent, hparent, h⟩ := Option.bind_eq_some_iff.mp h
  rw [sectionAt?_cons] at h
  obtain ⟨sub', hsub', h⟩ := Option.bind_eq_some_iff.mp h
  cases h
  obtain ⟨attrs, hget⟩ := subsection?_eq_some_iff.mp hsub'
  exact ⟨attrs, by rw [entryAt?_concat, hparent, Option.bind_some, hget]⟩

/-- Dropping the temporary keys of a tree restricts it to its lasting paths. -/
theorem restricts_dropTemporaryDeep (hs : s.Everywhere KeysDistinct) :
    Restricts s s.dropTemporaryDeep := by
  refine ⟨fun p hp => ?_, fun p hp => ?_⟩
  · rw [sectionAt?_dropTemporaryDeep hs hp, Option.map_map]
    exact congrArg (fun f => (s.sectionAt? p).map f) (funext outline_dropTemporaryDeep)
  · have hentry : s.dropTemporaryDeep.entryAt? p = none := by
      rw [Option.eq_none_iff_forall_ne_some]
      intro e he
      exact hp (entryAt?_dropTemporaryDeep hs he).1
    have hne : p ≠ [] := by
      rintro rfl
      exact hp fun q e hq he => by
        obtain rfl := List.prefix_nil.mp hq
        cases he
    refine ⟨hentry, ?_⟩
    rw [Option.eq_none_iff_forall_ne_some]
    intro sub hsub
    -- a section that is left has an entry that is left
    obtain ⟨attrs, he⟩ := exists_entryAt?_of_sectionAt? hne hsub
    rw [hentry] at he
    cases he

/-- Where no key is temporary, nothing is dropped. -/
theorem dropTemporaryDeep_eq_self (hs : s.Everywhere KeysDistinct)
    (h : ∀ p e, s.entryAt? p = some e → e.attrs.flags.temporary = false) :
    s.dropTemporaryDeep = s := by
  induction s using nested_induction with
  | step s ih =>
    have hget : ∀ entry ∈ s.entries.toList, s.entries.get? entry.1 = some entry.2 :=
      fun entry hmem => OrderedMap.get?_of_mem hs.holds hmem
    have hkept : (s.entries.toList.filter fun entry => !entry.2.attrs.flags.temporary) =
        s.entries.toList := by
      refine List.filter_eq_self.mpr fun entry hmem => ?_
      have hlasting := h [entry.1] entry.2 (by rw [entryAt?_singleton, hget entry hmem])
      rw [hlasting, Bool.not_false]
    -- nothing is dropped from the sections inside either, which are smaller
    have hsame : ∀ entry ∈ s.entries.toList, (entry.1, withoutTemporary entry.2) = entry := by
      rintro ⟨k, value, attrs⟩ hmem
      cases value with
      | scalar v => rfl
      | subsection sub =>
        have hsub : s.subsection? k = some sub := subsection?_of_get? (hget _ hmem)
        have hbelow : sub.dropTemporaryDeep = sub := by
          refine ih k sub attrs hmem (hs.down hsub) fun p e he => h (k :: p) e ?_
          have hp : p ≠ [] := by
            rintro rfl
            cases he
          rw [entryAt?_cons s k hp, hsub, Option.bind_some, he]
        rw [withoutTemporary, dropTemporaryValue, hbelow]
    rw [dropTemporaryDeep_eq, dropTemporaryEntries_eq, hkept, List.map_congr_left hsame]
    obtain ⟨name, ⟨entries⟩⟩ := s
    rw [List.map_id']

end Section

end LayeredConfig
