import LayeredConfig.Proofs.Section.Commute
import LayeredConfig.Proofs.Session.Step

/-!
# Entering and assigning a key before a merge and after it

An operation of a document changes one key, so whether it can be moved past a merge is a matter of
three entries: the one that the document has at the key, the one of the tree that the document is
merged into, and the outcome. A new key is written in both cases as it would be without the merge.
A key that the document has written before is protected, and merging does not change that; it can
only be entered again if it is a section, and then the merge does not mind.
-/

namespace LayeredConfig

namespace Section

variable {s s' sub : Section} {key k name : String} {e e' old : Entry} {t o : Option Entry}
  {value : Value} {flags : Flags} {origin : Origin} {path : List String}

/-! ## One key -/

/-- Merging in a key that has just been defined is the same as defining it there. -/
theorem absorbed_fresh_iff
    (hshapes : (t.any (fun old => old.value.isSubsection) && value.isSubsection) = false) :
    Absorbed ⟨value, { flags, history := ({} : Provenance).push origin }⟩ t e' ↔
      Overwritten value flags origin t e' := by
  cases t with
  | none =>
    constructor
    · rintro ⟨⟩
      exact ⟨rfl, rfl⟩
    · rintro ⟨-, rfl⟩
      exact .copied
  | some old =>
    constructor
    · intro h
      cases h with
      | overwritten unprotected _ => exact ⟨unprotected, rfl⟩
      | descended _ hvalue _ =>
        -- the shapes of two sections are not allowed here
        cases hvalue
        simp at hshapes
    · rintro ⟨unprotected, rfl⟩
      exact .overwritten unprotected hshapes

/-- Writing an absent key gives it a history of one definition. -/
theorem overwritten_none_iff :
    Overwritten value flags origin none e ↔
      e = ⟨value, { flags, history := ({} : Provenance).push origin }⟩ :=
  ⟨fun h => h.2, fun h => ⟨rfl, h⟩⟩

/-- A protected entry is not overwritten, neither before a merge nor after it. -/
theorem commutesAt_overwritten (hvalue : value.isSubsection = false)
    (ho : ∀ e, o = some e → e.attrs.isProtected = true) :
    CommutesAt (Overwritten value flags origin) t o := by
  intro e'
  cases o with
  | none =>
    simp only [overwritten_none_iff, exists_eq_left, MergedAt]
    exact absorbed_fresh_iff (by rw [hvalue, Bool.and_false])
  | some e =>
    -- the flags that refuse the key before the merge are the flags it has after the merge
    have hprotected := ho e rfl
    constructor
    · rintro ⟨_, ⟨hfree, -⟩, -⟩
      simp [hprotected] at hfree
    · rintro ⟨_, ⟨e₁, habsorbed, rfl⟩, hfree, -⟩
      rw [← habsorbed.isProtected_eq] at hprotected
      simp [hprotected] at hfree

end Section

namespace Draft

open Section (Absorbed CommutesAt MergedAt Overwritten)

variable {name : String} {origin : Origin} {e e' : Entry} {t o : Option Entry}

/-- What has been entered is a section. -/
theorem Entered.isSubsection (h : Entered name origin o e) : e.value.isSubsection = true := by
  cases h with
  | again _ => rfl
  | fresh _ overwritten =>
    rw [overwritten.2]
    rfl

/-- Where there is no section, entering one writes an empty section. -/
theorem entered_iff_overwritten (ho : o.any (fun old => old.value.isSubsection) = false) :
    Entered name origin o e ↔ Overwritten (.subsection (.named name)) {} origin o e := by
  refine ⟨fun h => ?_, .fresh ho⟩
  cases h with
  | again _ => simp at ho
  | fresh _ overwritten => exact overwritten

/-- Where there is one that is not final, entering it changes its attributes only. -/
theorem entered_some_iff (hsection : e.value.isSubsection = true)
    (notFinal : e.attrs.flags.final = false) :
    Entered name origin (some e) e' ↔ e' = { e with attrs := reentered origin e.attrs } := by
  obtain ⟨value, attrs⟩ := e
  obtain ⟨sub, rfl⟩ := Value.isSubsection_iff.mp hsection
  constructor
  · intro h
    cases h with
    | again _ => rfl
    | fresh noSection _ => cases noSection
  · rintro rfl
    exact .again notFinal

/-- Entering a section again touches its attributes only, and those in a way that does not mind
being done before the merge. -/
theorem absorbed_reentered_iff :
    Absorbed { e with attrs := reentered origin e.attrs } t e' ↔
      ∃ e₁, Absorbed e t e₁ ∧ e' = { e₁ with attrs := reentered origin e₁.attrs } := by
  have hoverlay : ∀ a b, Section.overlay a (reentered origin b) =
      reentered origin (Section.overlay a b) := by
    intro a b
    simp only [Section.overlay, reentered, KeyAttrs.mk.injEq, true_and]
    exact congrArg Provenance.mk (List.append_assoc ..).symm
  -- Whichever way the entry is absorbed, its attributes end up on top, and `hoverlay` moves the
  -- change past them.
  constructor
  · intro h
    cases h with
    | copied => exact ⟨_, .copied, rfl⟩
    | overwritten unprotected shapes =>
      exact ⟨_, .overwritten unprotected shapes, by rw [hoverlay]⟩
    | descended unprotected hvalue merged =>
      exact ⟨_, .descended unprotected hvalue merged, by rw [hoverlay]⟩
  · rintro ⟨e₁, h, rfl⟩
    cases h with
    | copied => exact .copied
    | overwritten unprotected shapes =>
      rw [← hoverlay]
      exact .overwritten unprotected shapes
    | descended unprotected hvalue merged =>
      rw [← hoverlay]
      exact .descended unprotected hvalue merged

/-! ## Headers -/

/-- Entering a section that is absent makes an empty one. -/
theorem entered_none_iff :
    Entered name origin none e ↔
      e = ⟨.subsection (.named name), { history := ({} : Provenance).push origin }⟩ :=
  (entered_iff_overwritten rfl).trans Section.overwritten_none_iff

/-- Merging an empty section into one that inheriting has left there enters it again. -/
theorem absorbed_named_iff {d : Section} {attrs : KeyAttrs}
    (hwritable : attrs.flags = { writable := true }) :
    Absorbed ⟨.subsection (.named name), { history := ({} : Provenance).push origin }⟩
        (some ⟨.subsection d, attrs⟩) e' ↔
      e' = ⟨.subsection d, reentered origin attrs⟩ := by
  -- the flag that the overlay takes away is the one that entering takes away
  have hreentered : Section.overlay attrs { history := ({} : Provenance).push origin } =
      reentered origin attrs := by
    rw [reentered, hwritable]
    rfl
  constructor
  · intro h
    cases h with
    | overwritten _ shapes => cases shapes
    | descended _ hvalue merged =>
      cases hvalue
      obtain rfl := Section.merge_nil_iff.mp merged
      rw [hreentered]
  · rintro rfl
    rw [← hreentered]
    refine .descended ?_ rfl (Section.merge_nil_iff.mpr rfl)
    rw [KeyAttrs.isProtected, hwritable]
    rfl

/-- A name that the document has not entered yet. -/
theorem commutesAt_entered_none
    (ht : ∀ e, t = some e → e.value.isSubsection = true → e.attrs.flags = { writable := true }) :
    CommutesAt (Entered name origin) t none := by
  intro e'
  simp only [entered_none_iff, exists_eq_left, MergedAt]
  by_cases hsection : t.any (fun old => old.value.isSubsection) = true
  · obtain ⟨⟨value, attrs⟩, rfl, hvalue⟩ := (Option.any_eq_true _ _).mp hsection
    have hwritable : attrs.flags = { writable := true } := ht _ rfl hvalue
    obtain ⟨d, rfl⟩ := Value.isSubsection_iff.mp hvalue
    have notFinal : attrs.flags.final = false := by rw [hwritable]
    rw [absorbed_named_iff hwritable]
    exact (entered_some_iff hvalue notFinal).symm
  · rw [Bool.not_eq_true] at hsection
    rw [entered_iff_overwritten hsection]
    exact Section.absorbed_fresh_iff (by rw [hsection, Bool.false_and])

/-- A name that the document has entered or assigned before. -/
theorem commutesAt_entered_some (hprotected : e.attrs.isProtected = true)
    (hflags : e.value.isSubsection = true → e.attrs.flags = {}) :
    CommutesAt (Entered name origin) t (some e) := by
  intro e'
  by_cases hsection : e.value.isSubsection = true
  · -- a section of the document has no flags, so it can be entered again before and after
    have hentered : ∀ e₁ : Entry, e₁.value.isSubsection = e.value.isSubsection →
        e₁.attrs.flags = e.attrs.flags → (Entered name origin (some e₁) e' ↔
          e' = { e₁ with attrs := reentered origin e₁.attrs }) := by
      intro e₁ hvalue hattrs
      refine entered_some_iff (hvalue.trans hsection) ?_
      rw [hattrs, hflags hsection]
    constructor
    · rintro ⟨e₁, hbefore, habsorbed⟩
      rw [entered_some_iff hsection (by rw [hflags hsection])] at hbefore
      subst hbefore
      obtain ⟨e₂, hmerged, rfl⟩ := absorbed_reentered_iff.mp habsorbed
      exact ⟨_, ⟨e₂, hmerged, rfl⟩,
        (hentered e₂ hmerged.isSubsection_eq hmerged.flags_eq).mpr rfl⟩
    · rintro ⟨_, ⟨e₁, habsorbed, rfl⟩, hafter⟩
      have he' := (hentered e₁ habsorbed.isSubsection_eq habsorbed.flags_eq).mp hafter
      exact ⟨_, (entered_some_iff hsection (by rw [hflags hsection])).mpr rfl,
        absorbed_reentered_iff.mpr ⟨e₁, habsorbed, he'⟩⟩
  · -- a scalar that is protected is refused, and the merge leaves it a protected scalar
    have hrefused : ∀ e₁ e₂ : Entry, e₁.value.isSubsection = e.value.isSubsection →
        e₁.attrs.isProtected = e.attrs.isProtected → ¬ Entered name origin (some e₁) e₂ := by
      intro e₁ e₂ hvalue hattrs hentered
      rw [entered_iff_overwritten (by simpa [hvalue] using hsection)] at hentered
      have hfree := hentered.1
      simp [hattrs, hprotected] at hfree
    constructor
    · rintro ⟨e₁, hentered, -⟩
      exact absurd hentered (hrefused e e₁ rfl rfl)
    · rintro ⟨_, ⟨e₁, habsorbed, rfl⟩, hentered⟩
      exact absurd hentered 
        (hrefused e₁ e' habsorbed.isSubsection_eq habsorbed.isProtected_eq)

end Draft

end LayeredConfig
