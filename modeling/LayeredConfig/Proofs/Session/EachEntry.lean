import LayeredConfig.Proofs.Session.Step

/-!
# Properties that entries keep

Many invariants of trees say something of every entry, at every depth: of its key, of its
attributes, and of whether it holds a section. `EachEntry E` is such an invariant for one section,
together with the keys being distinct, and `Everywhere (EachEntry E)` for a tree. A write keeps it
if the entry that is written satisfies `E`, and so does everything that is made of writes: an update
at the end of a path, a merge, and granting permission.
-/

namespace LayeredConfig.Section

variable {E : (key : String) → (isSubsection : Bool) → KeyAttrs → Prop}
  {s s' sub dst src out : Section} {key k : String} {e : Entry} {p path : List String}

/-- The keys of a section are distinct, and all of its entries satisfy `E`. -/
structure EachEntry (E : (key : String) → (isSubsection : Bool) → KeyAttrs → Prop) (s : Section) :
    Prop where
  keysDistinct : s.KeysDistinct
  entry : ∀ {k e}, s.entries.get? k = some e → E k e.value.isSubsection e.attrs

/-- A section without entries has nothing to satisfy. -/
theorem eachEntry_of_isEmpty (name : Option String) : Everywhere (EachEntry E) ⟨name, ∅⟩ :=
  .intro ⟨List.nodup_nil, nofun⟩ nofun

/-- Writing an entry that satisfies the property keeps it for the section. -/
theorem EachEntry.writes (hs : s.EachEntry E) (h : Writes s key e s')
    (he : E key e.value.isSubsection e.attrs) : s'.EachEntry E := by
  refine ⟨h.keysDistinct hs.keysDistinct, fun {k old} hold => ?_⟩
  rw [h.get?] at hold
  split at hold
  · rename_i hk
    cases hold
    rw [hk]
    exact he
  · exact hs.entry hold

/-- What holds of all entries holds of the one at the end of a path. -/
theorem EachEntry.entryAt? (hs : s.Everywhere (EachEntry E))
    (h : s.entryAt? (p ++ [k]) = some e) : E k e.value.isSubsection e.attrs := by
  rw [entryAt?_concat] at h
  obtain ⟨sub, hsub, hget⟩ := Option.bind_eq_some_iff.mp h
  exact (hs.sectionAt? hsub).holds.entry hget

/-! ## Writes -/

/-- An update below a path keeps the property if it does so at the end of the path. -/
theorem eachEntry_of_updatesAt {f : Section → Except ε Section}
    (hf : ∀ s s', s.Everywhere (EachEntry E) → f s = .ok s' → s'.Everywhere (EachEntry E))
    (hs : s.Everywhere (EachEntry E)) (h : UpdatesAt f path s s') :
    s'.Everywhere (EachEntry E) := by
  induction path generalizing s s' with
  | nil => exact hf s s' hs (updatesAt_nil_iff.mp h)
  | cons name path ih =>
    -- One level up, the update is a write of the entry that leads on, whose attributes stay.
    obtain ⟨e, ⟨sub, attrs, sub', hget, hsub', rfl⟩, hwrites⟩ :=
      (updatesAt_cons_alters f name path).writes h
    have hsub := ih (hs.down (subsection?_of_get? hget)) hsub'
    have hentry : E name true attrs := hs.holds.entry hget
    refine hwrites.everywhere hs (hs.holds.writes hwrites hentry) ?_
    rintro _ ⟨⟩
    exact hsub

/-- An assignment keeps the property if it gives its key attributes that satisfy it. -/
theorem eachEntry_of_overwritten {value : Value} {flags : Flags} {origin : Origin}
    (hvalue : value.isSubsection = false)
    (hwritten : E key false
      { flags, history := (historyOf (s.entries.get? key)).push origin })
    (hs : s.Everywhere (EachEntry E)) (he : Overwritten value flags origin (s.entries.get? key) e)
    (h : Writes s key e s') : s'.Everywhere (EachEntry E) := by
  obtain ⟨-, rfl⟩ := he
  refine h.everywhere hs (hs.holds.writes h (hvalue ▸ hwritten)) fun sub hsub => ?_
  obtain rfl : value = .subsection sub := hsub
  cases hvalue

/-- A header keeps the property if it gives the key of its section attributes that satisfy it, be
the section new or entered again. -/
theorem eachEntry_of_entered {origin : Origin}
    (hfresh : E key true { history := (historyOf (s.entries.get? key)).push origin })
    (hagain : ∀ attrs, E key true attrs → E key true (Draft.reentered origin attrs))
    (hs : s.Everywhere (EachEntry E)) (he : Draft.Entered key origin (s.entries.get? key) e)
    (h : Writes s key e s') : s'.Everywhere (EachEntry E) := by
  -- There are two ways to enter a section: again, with what is in it, or for the first time and
  -- empty.
  generalize hold : s.entries.get? key = old at he hfresh
  cases he with
  | @again sub attrs notFinal =>
    refine h.everywhere hs (hs.holds.writes h (hagain attrs (hs.holds.entry hold))) ?_
    rintro _ ⟨⟩
    exact hs.down (subsection?_of_get? hold)
  | fresh _ overwritten =>
    obtain ⟨-, rfl⟩ := overwritten
    refine h.everywhere hs (hs.holds.writes h hfresh) ?_
    rintro _ ⟨⟩
    exact eachEntry_of_isEmpty (some key)

/-! ## Merges -/

/-- Merging two trees with the property gives another, if attributes that are laid over each other
keep it. -/
theorem eachEntry_of_merge
    (hoverlay : ∀ {k b b' attrs attrs'}, E k b attrs → E k b' attrs' →
      E k b' (overlay attrs attrs'))
    (hdst : dst.Everywhere (EachEntry E)) (hsrc : src.Everywhere (EachEntry E))
    (h : dst.merge src = .ok out) : out.Everywhere (EachEntry E) := by
  induction dst using subsection_induction generalizing src out with
  | step dst ih =>
    obtain ⟨-, hkeys, hget⟩ := merge_spec hsrc.holds.keysDistinct h
    -- every entry comes from one side, or else from merging two sections
    have hentry : ∀ k e, out.entries.get? k = some e → E k e.value.isSubsection e.attrs ∧
        ∀ sub, e.value = .subsection sub → sub.Everywhere (EachEntry E) := by
      intro k e he
      have hat := hget k
      rw [he] at hat
      cases hsrcget : src.entries.get? k with
      | none =>
        rw [hsrcget] at hat
        have hdstget : dst.entries.get? k = some e := Eq.symm hat
        exact ⟨hdst.holds.entry hdstget, fun sub => hdst.of_get? hdstget⟩
      | some new =>
        rw [hsrcget] at hat
        obtain ⟨e', habsorbed, heq⟩ := hat
        obtain rfl := Option.some.inj heq
        have hnew := hsrc.holds.entry hsrcget
        have hnewsub : ∀ sub, new.value = .subsection sub → sub.Everywhere (EachEntry E) :=
          fun sub => hsrc.of_get? hsrcget
        -- The source has the key, so it was copied, overwritten, or merged in turn.
        generalize hold : dst.entries.get? k = old at habsorbed
        cases habsorbed with
        | copied => exact ⟨hnew, hnewsub⟩
        | overwritten => exact ⟨hoverlay (hdst.holds.entry hold) hnew, hnewsub⟩
        | @descended d src' m attrs _ hvalue hmerged =>
          rw [hvalue] at hnew
          refine ⟨hoverlay (hdst.holds.entry hold) hnew, ?_⟩
          rintro _ ⟨⟩
          have hd := subsection?_of_get? hold
          exact ih k d hd (hdst.down hd) (hnewsub src' hvalue) hmerged
    -- What is left is that no key occurs twice, and the way down into sections.
    refine .intro ⟨?_, fun {k e} he => (hentry k e he).1⟩ fun k sub hsub => ?_
    · unfold KeysDistinct
      rw [hkeys]
      exact nodup_mergedKeys hdst.holds.keysDistinct hsrc.holds.keysDistinct
    · obtain ⟨attrs, hsubget⟩ := subsection?_eq_some_iff.mp hsub
      exact (hentry k _ hsubget).2 sub rfl

/-! ## Permission to overwrite -/

/-- What granting or withdrawing permission makes of an entry. -/
def withWritable (writable : Bool) (e : Entry) : Entry :=
  ⟨setWritableValue writable e.value, { e.attrs with flags := { e.attrs.flags with writable } }⟩

/-- Granting permission to a tree changes each of its entries, and no key. -/
theorem setWritableDeep_eq (writable : Bool) (s : Section) :
    s.setWritableDeep writable = { s with entries := s.entries.map (withWritable writable) } := by
  obtain ⟨name, ⟨entries⟩⟩ := s
  have hentries : setWritableEntries writable entries =
      ((OrderedMap.mk entries).map (withWritable writable)).toList := by
    induction entries with
    | nil => rfl
    | cons entry entries ih =>
      obtain ⟨k, value, attrs⟩ := entry
      rw [setWritableEntries, ih]
      rfl
  rw [setWritableDeep, hentries]

/-- Granting permission makes no section of a scalar, nor the other way round. -/
theorem isSubsection_setWritableValue (writable : Bool) (v : Value) :
    (setWritableValue writable v).isSubsection = v.isSubsection := by
  cases v <;> rfl

/-- Granting permission to a tree keeps the property if it does so for every entry. -/
theorem eachEntry_setWritableDeep (writable : Bool)
    (hgrant : ∀ {k b attrs}, E k b attrs →
      E k b { attrs with flags := { attrs.flags with writable } })
    (hs : s.Everywhere (EachEntry E)) : (s.setWritableDeep writable).Everywhere (EachEntry E) := by
  induction s using subsection_induction with
  | step s ih =>
    rw [setWritableDeep_eq]
    -- The keys are the same, each entry has the new flag, and sections follow by induction.
    refine .intro ⟨?_, fun {k e} he => ?_⟩ fun k sub hsub => ?_
    · unfold KeysDistinct
      rw [OrderedMap.keys_map]
      exact hs.holds.keysDistinct
    · rw [OrderedMap.get?_map] at he
      obtain ⟨old, hold, rfl⟩ := Option.map_eq_some_iff.mp he
      rw [withWritable, isSubsection_setWritableValue]
      exact hgrant (hs.holds.entry hold)
    · obtain ⟨attrs, hget⟩ := subsection?_eq_some_iff.mp hsub
      rw [OrderedMap.get?_map] at hget
      obtain ⟨⟨value, attrs'⟩, hold, hnew⟩ := Option.map_eq_some_iff.mp hget
      cases value with
      | scalar v => cases hnew
      | subsection old =>
        cases hnew
        have hold := subsection?_of_get? hold
        exact ih k old hold (hs.down hold)

end LayeredConfig.Section
