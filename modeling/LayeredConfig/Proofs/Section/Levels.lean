import LayeredConfig.Proofs.Section.Merge

/-!
# A merge at every level

Merging two trees descends through the keys that are sections on both sides, which are the paths
that lead to a section in either tree. A merge succeeds exactly when no key of the source meets a
protected key of the destination at one of these levels, and then the outcome is at each of them an
overlay of the source over the destination (`Overlays`). Both halves follow the merge downwards:
`overlays_of_merge` is about one level, and says that two sections under one key were merged in
turn.
-/

namespace LayeredConfig.Section

variable {dst src out d s : Section} {p : List String} {k : String} {old new e : Entry}

/-- What a merge leaves at a key that both sides have. Two sections are merged in turn; otherwise
the value of the source stays. -/
inductive MergedValue : (old new out : Value) → Prop
  | sections {d s m : Section} (merged : d.merge s = .ok m) :
      MergedValue (.subsection d) (.subsection s) (.subsection m)
  | replaced {old new : Value} (shapes : (old.isSubsection && new.isSubsection) = false) :
      MergedValue old new new

/-- At one level, `out` is what the entries of `src` make of those of `dst`. -/
structure Overlays (dst src out : Section) : Prop where
  name : out.name = dst.name
  /-- The keys of the destination come first, in their order, and then the new ones. -/
  keys : out.entries.keys =
    dst.entries.keys ++ src.entries.keys.filter (· ∉ dst.entries.keys)
  kept : ∀ k, k ∉ src.entries.keys → out.entries.get? k = dst.entries.get? k
  copied : ∀ k, k ∉ dst.entries.keys → out.entries.get? k = src.entries.get? k
  merged : ∀ k old new, dst.entries.get? k = some old → src.entries.get? k = some new →
    ∃ e, out.entries.get? k = some e ∧ MergedValue old.value new.value e.value ∧
      e.attrs.flags = new.attrs.flags ∧
      e.attrs.history.origins = old.attrs.history.origins ++ new.attrs.history.origins

/-- Where both trees have a section at the path `p`, the key `k` of the source meets a protected key
of the destination. -/
def CollidesAt (dst src : Section) (p : List String) (k : String) : Prop :=
  ∃ d s, dst.sectionAt? p = some d ∧ src.sectionAt? p = some s ∧
    k ∈ s.entries.keys ∧ d.isProtected k = true

/-! ## One level -/

/-- Where an entry meets an old one, their values are merged. -/
theorem Absorbed.mergedValue (h : Absorbed new (some old) e) :
    MergedValue old.value new.value e.value := by
  cases h with
  | overwritten _ shapes => exact .replaced shapes
  | descended _ hvalue merged =>
    rw [hvalue]
    exact .sections merged

/-- Where an entry meets an old one, its attributes are overlaid on those. -/
theorem Absorbed.attrs_eq (h : Absorbed new (some old) e) :
    e.attrs = overlay old.attrs new.attrs := by
  cases h with
  | overwritten _ _ => rfl
  | descended _ _ _ => rfl

/-- A merge overlays one level. -/
theorem overlays_of_merge (hsrc : src.KeysDistinct) (h : dst.merge src = .ok out) :
    Overlays dst src out := by
  obtain ⟨hname, hkeys, hget⟩ := merge_spec hsrc h
  refine ⟨hname, hkeys, ?_, ?_, ?_⟩
  · intro k hk
    have hat := hget k
    rwa [OrderedMap.get?_eq_none_iff.mpr hk] at hat
  · -- a key that only the source has is copied, for there is no old entry to meet
    intro k hk
    have hat := hget k
    rw [OrderedMap.get?_eq_none_iff.mpr hk] at hat
    cases hsrcget : src.entries.get? k with
    | none =>
      rw [hsrcget] at hat
      exact hat
    | some new =>
      rw [hsrcget] at hat
      obtain ⟨e, habsorbed, he⟩ := hat
      cases habsorbed
      exact he
  · intro k old new hold hnew
    have hat := hget k
    rw [hold, hnew] at hat
    obtain ⟨e, habsorbed, he⟩ := hat
    have hattrs := habsorbed.attrs_eq
    exact ⟨e, he, habsorbed.mergedValue, by rw [hattrs]; rfl, by rw [hattrs]; rfl⟩

/-- Two sections under one key have been merged in turn. -/
theorem Overlays.subsection? (h : Overlays dst src out) (hd : dst.subsection? k = some d)
    (hs : src.subsection? k = some s) : ∃ o, out.subsection? k = some o ∧ d.merge s = .ok o := by
  obtain ⟨oldAttrs, hold⟩ := subsection?_eq_some_iff.mp hd
  obtain ⟨newAttrs, hnew⟩ := subsection?_eq_some_iff.mp hs
  obtain ⟨⟨value, attrs⟩, he, hvalue, -, -⟩ := h.merged k _ _ hold hnew
  generalize hout : value = v at hvalue
  cases hvalue with
  | @sections _ _ m merged =>
    subst hout
    exact ⟨m, subsection?_of_get? he, merged⟩
  | replaced shapes => cases shapes

/-- A successful merge has met no protected key. -/
theorem isProtected_of_merge (hsrc : src.KeysDistinct) (h : dst.merge src = .ok out)
    (hk : k ∈ src.entries.keys) : dst.isProtected k = false := by
  obtain ⟨new, hnew⟩ := OrderedMap.mem_keys_iff.mp hk
  obtain ⟨-, -, hget⟩ := merge_spec hsrc h
  have hat := hget k
  rw [hnew] at hat
  obtain ⟨e, habsorbed, -⟩ := hat
  rw [isProtected_eq]
  cases hold : dst.entries.get? k with
  | none => rfl
  | some old =>
    rw [hold] at habsorbed
    exact habsorbed.unprotected

/-! ## Every level -/

/-- A merge that succeeds has merged the sections at every path that leads to one on both sides. -/
theorem merge_sectionAt? (hsrc : src.Everywhere KeysDistinct) (h : dst.merge src = .ok out)
    (hd : dst.sectionAt? p = some d) (hs : src.sectionAt? p = some s) :
    ∃ o, out.sectionAt? p = some o ∧ s.KeysDistinct ∧ d.merge s = .ok o := by
  induction p generalizing dst src out with
  | nil =>
    cases hd
    cases hs
    exact ⟨out, rfl, hsrc.holds, h⟩
  | cons k p ih =>
    rw [sectionAt?_cons] at hd hs
    obtain ⟨d', hd', hd⟩ := Option.bind_eq_some_iff.mp hd
    obtain ⟨s', hs', hs⟩ := Option.bind_eq_some_iff.mp hs
    obtain ⟨o', ho', hmerge⟩ := (overlays_of_merge hsrc.holds h).subsection? hd' hs'
    obtain ⟨o, ho, hlevel⟩ := ih (hsrc.down hs') hmerge hd hs
    exact ⟨o, by rw [sectionAt?_cons, ho', Option.bind_some, ho], hlevel⟩

/-- Where nothing collides, every key can be merged, and so can the sections. -/
theorem exists_merge_of_not_collides (hsrc : src.Everywhere KeysDistinct)
    (h : ∀ p k, ¬ CollidesAt dst src p k) : ∃ out, dst.merge src = .ok out := by
  induction dst using subsection_induction generalizing src with
  | step dst ih =>
    refine exists_merge_eq_ok hsrc.holds fun k => ?_
    cases hnew : src.entries.get? k with
    | none => exact ⟨_, rfl⟩
    | some new =>
      cases hold : dst.entries.get? k with
      | none => exact ⟨_, _, .copied, rfl⟩
      | some old =>
        have hmem : k ∈ src.entries.keys := OrderedMap.mem_keys_of_get? hnew
        -- a protected key here would be a collision at the root
        have hfree : old.attrs.isProtected = false := by
          rw [← Bool.not_eq_true]
          intro hprotected
          refine h [] k ⟨dst, src, rfl, rfl, hmem, ?_⟩
          rw [isProtected_eq, hold]
          exact hprotected
        by_cases hshapes : (old.value.isSubsection && new.value.isSubsection) = true
        · -- two sections: a collision below them would be one of the whole trees
          rw [Bool.and_eq_true, Value.isSubsection_iff, Value.isSubsection_iff] at hshapes
          obtain ⟨oldValue, oldAttrs⟩ := old
          obtain ⟨newValue, newAttrs⟩ := new
          obtain ⟨⟨d, rfl⟩, s, rfl⟩ := hshapes
          have hd := subsection?_of_get? hold
          have hs := subsection?_of_get? hnew
          obtain ⟨m, hm⟩ := ih k d hd (hsrc.down hs) fun p k' => by
            rintro ⟨d', s', hd', hs', hcollides⟩
            refine h (k :: p) k' ⟨d', s', ?_, ?_, hcollides⟩
            · rw [sectionAt?_cons, hd, Option.bind_some, hd']
            · rw [sectionAt?_cons, hs, Option.bind_some, hs']
          exact ⟨_, _, .descended hfree rfl hm, rfl⟩
        · rw [Bool.not_eq_true] at hshapes
          exact ⟨_, _, .overwritten hfree hshapes, rfl⟩

/-- A merge fails only over a protected key of the destination that the source has too, at a level
that both trees have. When it succeeds, the outcome overlays the two trees at each such level. -/
theorem merge_overlays_every_level (hsrc : src.Everywhere KeysDistinct) :
    ((∃ out, dst.merge src = .ok out) ↔ ¬ ∃ p k, CollidesAt dst src p k) ∧
      ∀ out, dst.merge src = .ok out → ∀ p d s, dst.sectionAt? p = some d →
        src.sectionAt? p = some s → ∃ o, out.sectionAt? p = some o ∧ Overlays d s o := by
  refine ⟨⟨?_, ?_⟩, ?_⟩
  · rintro ⟨out, hout⟩ ⟨p, k, d, s, hd, hs, hk, hprotected⟩
    obtain ⟨o, -, hkeys, hmerge⟩ := merge_sectionAt? hsrc hout hd hs
    rw [isProtected_of_merge hkeys hmerge hk] at hprotected
    cases hprotected
  · intro hnone
    exact exists_merge_of_not_collides hsrc fun p k hcollides => hnone ⟨p, k, hcollides⟩
  · intro out hout p d s hd hs
    obtain ⟨o, ho, hkeys, hmerge⟩ := merge_sectionAt? hsrc hout hd hs
    exact ⟨o, ho, overlays_of_merge hkeys hmerge⟩

/-- A tree that may be overwritten but for `a:y`. -/
def base : Section :=
  ⟨none, ⟨[
    ("a", ⟨.subsection ⟨some "a", ⟨[
      ("x", ⟨.scalar (.text "1"), { flags := { writable := true } }⟩),
      ("y", ⟨.scalar (.text "2"), {}⟩)]⟩⟩, { flags := { writable := true } }⟩),
    ("b", ⟨.subsection (.named "b"), { flags := { temporary := true } }⟩)]⟩⟩

/-- A tree to be merged into it. Its `b` is a text. -/
def patch : Section :=
  ⟨none, ⟨[
    ("b", ⟨.scalar (.text "3"), { flags := { final := true } }⟩),
    ("a", ⟨.subsection ⟨some "a", ⟨[
      ("z", ⟨.scalar (.text "4"), { flags := { mandatory := true } }⟩),
      ("x", ⟨.scalar (.text "5"), {}⟩)]⟩⟩, {}⟩)]⟩⟩

/-- What comes out. -/
def patched : Section :=
  ⟨none, ⟨[
    ("a", ⟨.subsection ⟨some "a", ⟨[
      ("x", ⟨.scalar (.text "5"), {}⟩),
      ("y", ⟨.scalar (.text "2"), {}⟩),
      ("z", ⟨.scalar (.text "4"), { flags := { mandatory := true } }⟩)]⟩⟩, {}⟩),
    ("b", ⟨.scalar (.text "3"), { flags := { final := true } }⟩)]⟩⟩

/-- The patch overlays the base at the root and in `a`, and replaces the section `b` by a text. -/
theorem merge_overlays_every_level_patch :
    patch.Everywhere KeysDistinct ∧ base.merge patch = .ok patched ∧
      (¬ ∃ p k, CollidesAt base patch p k) ∧
      ∃ d s o, base.sectionAt? ["a"] = some d ∧ patch.sectionAt? ["a"] = some s ∧
        patched.sectionAt? ["a"] = some o ∧ Overlays d s o := by
  have hkeys : patch.Everywhere KeysDistinct := by
    refine .of_toList (by decide) ?_
    rintro _ (_ | ⟨_, _ | ⟨_, ⟨⟩⟩⟩) sub ⟨⟩
    refine .of_toList (by decide) ?_
    rintro _ (_ | ⟨_, _ | ⟨_, ⟨⟩⟩⟩) sub ⟨⟩
  have hmerge : base.merge patch = .ok patched := rfl
  obtain ⟨hiff, hlevels⟩ : ((∃ out, base.merge patch = .ok out) ↔ _) ∧ _ :=
    merge_overlays_every_level hkeys
  obtain ⟨o, ho, hoverlays⟩ := hlevels patched hmerge ["a"] _ _ rfl rfl
  exact ⟨hkeys, hmerge, hiff.mp ⟨patched, hmerge⟩, _, _, o, rfl, rfl, ho, hoverlays⟩

end LayeredConfig.Section
