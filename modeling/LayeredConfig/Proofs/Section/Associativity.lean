import LayeredConfig.Proofs.Section.Merge

/-!
# Merging layer upon layer

Three layers can be merged from below, the second into the first and then the third into the
outcome, or from above, the third into the second and then the outcome into the first. Whether a
merge may write a key is asked of the lower of two entries, which after a merge has the flags of the
upper one. So both ways ask the first entry and the second, and never the third
(`absorbed_assoc`). Key by key this makes the two ways the same, provided that no key is a section
in one layer and a scalar in another: a scalar would cut the section below it off from the section
above it in one of the two ways only.
-/

namespace LayeredConfig.Section

variable {a b c s s' sub sub' out : Section} {k : String} {e e' e₁ e₂ e₃ : Entry}
  {o₁ o₂ o₃ o : Option Entry}

/-! ## Layers that fit together -/

/-- No key path holds a section in one of the trees and a scalar in the other. -/
def SameShapes (s s' : Section) : Prop :=
  ∀ p e e', s.entryAt? p = some e → s'.entryAt? p = some e' →
    e.value.isSubsection = e'.value.isSubsection

/-- Two layers of the same shape agree on whether a key that both have leads to a section. -/
theorem SameShapes.here (h : SameShapes s s') (he : s.entries.get? k = some e)
    (he' : s'.entries.get? k = some e') : e.value.isSubsection = e'.value.isSubsection := by
  refine h [k] e e' ?_ ?_
  · rw [entryAt?_singleton, he]
  · rw [entryAt?_singleton, he']

/-- Layers of the same shape have sections of the same shape. -/
theorem SameShapes.down (h : SameShapes s s') (hsub : s.subsection? k = some sub)
    (hsub' : s'.subsection? k = some sub') : SameShapes sub sub' := by
  intro p e e' he he'
  have hp : p ≠ [] := by
    rintro rfl
    cases he
  refine h (k :: p) e e' ?_ ?_
  · rw [entryAt?_cons s k hp, hsub, Option.bind_some, he]
  · rw [entryAt?_cons s' k hp, hsub', Option.bind_some, he']

/-- Layers have the same shape if their common keys lead to the same kind of value and their common
sections have the same shape. -/
theorem SameShapes.of_toList
    (here : ∀ entry ∈ s.entries.toList, (s'.entries.get? entry.1).all
      (fun e' => entry.2.value.isSubsection == e'.value.isSubsection) = true)
    (below : ∀ entry ∈ s.entries.toList, ∀ sub sub', entry.2.value = .subsection sub →
      s'.subsection? entry.1 = some sub' → SameShapes sub sub') : SameShapes s s' := by
  intro p e e' he he'
  cases p with
  | nil => cases he
  | cons k p =>
    by_cases hp : p = []
    · subst hp
      rw [entryAt?_singleton] at he he'
      have hall := here _ (OrderedMap.mem_of_get? he)
      rw [he', Option.all_some] at hall
      exact eq_of_beq hall
    · rw [entryAt?_cons _ k hp] at he he'
      obtain ⟨sub, hsub, he⟩ := Option.bind_eq_some_iff.mp he
      obtain ⟨sub', hsub', he'⟩ := Option.bind_eq_some_iff.mp he'
      obtain ⟨attrs, hget⟩ := subsection?_eq_some_iff.mp hsub
      exact below _ (OrderedMap.mem_of_get? hget) sub sub' rfl hsub' p e e' he he'

/-! ## Three entries -/

/-- Attributes are overlaid from either side with the same outcome: the flags come from the last
layer, and histories are joined in order. -/
theorem overlay_assoc (x y z : KeyAttrs) : overlay (overlay x y) z = overlay x (overlay y z) :=
  congrArg (KeyAttrs.mk z.flags) (congrArg Provenance.mk (List.append_assoc ..))

/-- An entry is absorbed as it is where there is none. -/
theorem absorbed_none_iff : Absorbed e none e' ↔ e' = e := by
  constructor
  · rintro ⟨⟩
    rfl
  · rintro rfl
    exact .copied

/-- A scalar replaces whatever is below it. -/
theorem absorbed_scalar_iff {v : Scalar} {attrs : KeyAttrs} :
    Absorbed ⟨.scalar v, attrs⟩ (some e₁) e ↔
      e₁.attrs.isProtected = false ∧ e = ⟨.scalar v, overlay e₁.attrs attrs⟩ := by
  have hshapes : (e₁.value.isSubsection && (Value.scalar v).isSubsection) = false :=
    Bool.and_false _
  constructor
  · intro h
    exact ⟨h.unprotected, h.unique (.overwritten h.unprotected hshapes)⟩
  · rintro ⟨unprotected, rfl⟩
    exact .overwritten unprotected hshapes

/-- Two sections are merged. -/
theorem absorbed_subsections_iff {attrs attrs' : KeyAttrs} :
    Absorbed ⟨.subsection s', attrs'⟩ (some ⟨.subsection s, attrs⟩) e ↔
      attrs.isProtected = false ∧
        ∃ m, s.merge s' = .ok m ∧ e = ⟨.subsection m, overlay attrs attrs'⟩ := by
  constructor
  · intro h
    cases h with
    | overwritten _ hshapes => cases hshapes
    | @descended _ _ m _ unprotected hvalue merged =>
      cases hvalue
      exact ⟨unprotected, m, merged, rfl⟩
  · rintro ⟨unprotected, m, merged, rfl⟩
    exact .descended unprotected rfl merged

/-- Merging from below and from above succeed together, with the same outcome. -/
def Associates (a b c : Section) : Prop :=
  ∀ out, (a.merge b >>= fun m => m.merge c) = .ok out ↔ (b.merge c >>= fun m => a.merge m) = .ok out

/-- Whichever two of three entries are merged first, the first and the second have to be
unprotected. -/
theorem absorbed_assoc (h₁₂ : e₁.value.isSubsection = e₂.value.isSubsection)
    (h₂₃ : e₂.value.isSubsection = e₃.value.isSubsection)
    (hsub : ∀ a b c, e₁.value = .subsection a → e₂.value = .subsection b →
      e₃.value = .subsection c → Associates a b c) :
    (∃ m, Absorbed e₂ (some e₁) m ∧ Absorbed e₃ (some m) e) ↔
      ∃ m, Absorbed e₃ (some e₂) m ∧ Absorbed m (some e₁) e := by
  obtain ⟨v₁, x₁⟩ := e₁
  obtain ⟨v₂, x₂⟩ := e₂
  obtain ⟨v₃, x₃⟩ := e₃
  cases v₃ with
  | scalar v₃ =>
    cases v₂ with
    | subsection b => cases h₂₃
    | scalar v₂ =>
      -- three scalars: the first two must be free to be overwritten, and the last one stands
      simp only [absorbed_scalar_iff]
      constructor
      · rintro ⟨_, ⟨free₁, rfl⟩, free₂, rfl⟩
        refine ⟨_, ⟨free₂, rfl⟩, absorbed_scalar_iff.mpr ⟨free₁, ?_⟩⟩
        rw [overlay_assoc]
      · rintro ⟨_, ⟨free₂, rfl⟩, hm⟩
        obtain ⟨free₁, rfl⟩ := absorbed_scalar_iff.mp hm
        refine ⟨_, ⟨free₁, rfl⟩, free₂, ?_⟩
        rw [overlay_assoc]
  | subsection c =>
    -- three sections: their merges associate by assumption, and their attributes as those of
    -- scalars
    obtain ⟨b, rfl⟩ := Value.isSubsection_iff.mp h₂₃
    obtain ⟨a, rfl⟩ := Value.isSubsection_iff.mp h₁₂
    have hassoc := hsub a b c rfl rfl rfl
    simp only [Associates, Except.bind_eq_ok_iff] at hassoc
    simp only [absorbed_subsections_iff]
    constructor
    · rintro ⟨_, ⟨free₁, ab, hab, rfl⟩, hm⟩
      obtain ⟨free₂, out, hout, rfl⟩ := absorbed_subsections_iff.mp hm
      obtain ⟨bc, hbc, hout'⟩ := (hassoc out).mp ⟨ab, hab, hout⟩
      refine ⟨_, ⟨free₂, bc, hbc, rfl⟩, absorbed_subsections_iff.mpr ⟨free₁, out, hout', ?_⟩⟩
      rw [overlay_assoc]
    · rintro ⟨_, ⟨free₂, bc, hbc, rfl⟩, hm⟩
      obtain ⟨free₁, out, hout, rfl⟩ := absorbed_subsections_iff.mp hm
      obtain ⟨ab, hab, hout'⟩ := (hassoc out).mpr ⟨bc, hbc, hout⟩
      refine ⟨_, ⟨free₁, ab, hab, rfl⟩, absorbed_subsections_iff.mpr ⟨free₂, out, hout', ?_⟩⟩
      rw [overlay_assoc]

/-- The same for keys that need not be there. Where one of the three layers has no entry, there is
only one merge to do. -/
theorem mergedAt_assoc
    (h₁₂ : ∀ e₁ e₂, o₁ = some e₁ → o₂ = some e₂ → e₁.value.isSubsection = e₂.value.isSubsection)
    (h₂₃ : ∀ e₂ e₃, o₂ = some e₂ → o₃ = some e₃ → e₂.value.isSubsection = e₃.value.isSubsection)
    (hsub : ∀ a b c x y z, o₁ = some ⟨.subsection a, x⟩ → o₂ = some ⟨.subsection b, y⟩ →
      o₃ = some ⟨.subsection c, z⟩ → Associates a b c) :
    (∃ m, MergedAt o₁ o₂ m ∧ MergedAt m o₃ o) ↔ ∃ m, MergedAt o₂ o₃ m ∧ MergedAt o₁ m o := by
  cases o₃ with
  | none => simp [MergedAt]
  | some e₃ =>
    cases o₂ with
    | none => simp [MergedAt, absorbed_none_iff]
    | some e₂ =>
      cases o₁ with
      | none => simp [MergedAt, absorbed_none_iff]
      | some e₁ =>
        obtain ⟨v₁, x₁⟩ := e₁
        obtain ⟨v₂, x₂⟩ := e₂
        obtain ⟨v₃, x₃⟩ := e₃
        -- with a key missing from a layer there is nothing to associate, so that all three have it
        -- now
        have hsections : ∀ a b c, v₁ = .subsection a → v₂ = .subsection b → v₃ = .subsection c →
            Associates a b c := by
          rintro a b c rfl rfl rfl
          exact hsub a b c x₁ x₂ x₃ rfl rfl rfl
        have hentries (e : Entry) :=
          absorbed_assoc (e := e) (h₁₂ _ _ rfl rfl) (h₂₃ _ _ rfl rfl) hsections
        constructor
        · rintro ⟨_, ⟨m, hm, rfl⟩, e, he, rfl⟩
          obtain ⟨m', hm', he'⟩ := (hentries e).mp ⟨m, hm, he⟩
          exact ⟨_, ⟨m', hm', rfl⟩, e, he', rfl⟩
        · rintro ⟨_, ⟨m, hm, rfl⟩, e, he, rfl⟩
          obtain ⟨m', hm', he'⟩ := (hentries e).mpr ⟨m, hm, he⟩
          exact ⟨_, ⟨m', hm', rfl⟩, e, he', rfl⟩

/-! ## Three layers -/

/-- The keys of three layers come in the same order whichever two are merged first. -/
theorem mergedKeys_assoc {ab bc : Section} (hab : ab.entries.keys = mergedKeys a b)
    (hbc : bc.entries.keys = mergedKeys b c) : mergedKeys ab c = mergedKeys a bc := by
  rw [mergedKeys, mergedKeys, hab, hbc, mergedKeys, mergedKeys, List.filter_append,
    List.filter_filter, List.append_assoc]
  refine congrArg _ (congrArg _ (List.filter_congr fun k _ => ?_))
  by_cases ha : k ∈ a.entries.keys <;> by_cases hb : k ∈ b.entries.keys <;> simp [ha, hb]

/-- Merging sections with distinct keys gives distinct keys. -/
theorem keysDistinct_of_merge (hs : s.KeysDistinct) (hs' : s'.KeysDistinct)
    (h : s.merge s' = .ok out) : out.KeysDistinct := by
  obtain ⟨-, hkeys, -⟩ := merge_spec hs' h
  unfold KeysDistinct
  rw [hkeys]
  exact nodup_mergedKeys hs hs'

/-- If at every key both ways lead to the same entry, they lead to the same section. -/
theorem associates_of_mergedAt (ha : a.KeysDistinct) (hb : b.KeysDistinct) (hc : c.KeysDistinct)
    (h : ∀ k o, (∃ m, MergedAt (a.entries.get? k) (b.entries.get? k) m ∧
        MergedAt m (c.entries.get? k) o) ↔
      ∃ m, MergedAt (b.entries.get? k) (c.entries.get? k) m ∧ MergedAt (a.entries.get? k) m o) :
    Associates a b c := by
  intro out
  rw [Except.bind_eq_ok_iff, Except.bind_eq_ok_iff]
  constructor
  · rintro ⟨ab, hab, hout⟩
    obtain ⟨habname, habkeys, habget⟩ := merge_spec hb hab
    obtain ⟨houtname, houtkeys, houtget⟩ := merge_spec hc hout
    -- the keys are merged one by one, so the other order succeeds where each of its keys does
    have hlevels (k : String) := (h k _).mp ⟨_, habget k, houtget k⟩
    obtain ⟨bc, hbc⟩ := exists_merge_eq_ok hc fun k => (hlevels k).imp fun m hm => hm.1
    obtain ⟨-, hbckeys, hbcget⟩ := merge_spec hc hbc
    refine ⟨bc, hbc, (merge_eq_ok_iff ha (keysDistinct_of_merge hb hc hbc)).mpr ⟨?_, ?_, ?_⟩⟩
    · rw [houtname, habname]
    · rw [houtkeys, mergedKeys_assoc habkeys hbckeys]
    · intro k
      obtain ⟨m, hm, hat⟩ := hlevels k
      rwa [(hbcget k).unique hm]
  · rintro ⟨bc, hbc, hout⟩
    obtain ⟨-, hbckeys, hbcget⟩ := merge_spec hc hbc
    obtain ⟨houtname, houtkeys, houtget⟩ := merge_spec (keysDistinct_of_merge hb hc hbc) hout
    have hlevels (k : String) := (h k _).mpr ⟨_, hbcget k, houtget k⟩
    obtain ⟨ab, hab⟩ := exists_merge_eq_ok hb fun k => (hlevels k).imp fun m hm => hm.1
    obtain ⟨habname, habkeys, habget⟩ := merge_spec hb hab
    refine ⟨ab, hab, (merge_eq_ok_iff (keysDistinct_of_merge ha hb hab) hc).mpr ⟨?_, ?_, ?_⟩⟩
    · rw [houtname, habname]
    · rw [houtkeys, mergedKeys_assoc habkeys hbckeys]
    · intro k
      obtain ⟨m, hm, hat⟩ := hlevels k
      rwa [(habget k).unique hm]

/-- Layers of the same shape are merged in either order with the same outcome, on every level. -/
theorem associates (ha : a.Everywhere KeysDistinct) (hb : b.Everywhere KeysDistinct)
    (hc : c.Everywhere KeysDistinct) (hab : SameShapes a b) (hbc : SameShapes b c) :
    Associates a b c := by
  induction a using subsection_induction generalizing b c with
  | step a ih =>
    refine associates_of_mergedAt ha.holds hb.holds hc.holds fun k o => ?_
    -- by induction on the first layer, whose sections are smaller
    refine mergedAt_assoc (fun _ _ => hab.here) (fun _ _ => hbc.here) ?_
    intro a' b' c' x y z ha' hb' hc'
    replace ha' := subsection?_of_get? ha'
    replace hb' := subsection?_of_get? hb'
    replace hc' := subsection?_of_get? hc'
    exact ih k a' ha' (ha.down ha') (hb.down hb') (hc.down hc') (hab.down ha' hb')
      (hbc.down hb' hc')

/-- Merging is associative where sections meet sections and scalars meet scalars. The first layer
and the third need not fit together unless the second has the key as well. The empty root is neutral
on both sides. -/
theorem merge_associates_with_identity (ha : a.Everywhere KeysDistinct)
    (hb : b.Everywhere KeysDistinct) (hc : c.Everywhere KeysDistinct) (hab : SameShapes a b)
    (hbc : SameShapes b c) :
    Associates a b c ∧ ∀ s, s.KeysDistinct → s.name = none →
      root.merge s = .ok s ∧ s.merge root = .ok s :=
  ⟨associates ha hb hc hab hbc, fun _ hs hname => ⟨root_merge hs hname, merge_nil_iff.mpr rfl⟩⟩

/-- A layer of defaults that may all be overwritten. -/
def defaults : Section :=
  ⟨none, ⟨[
    ("net", ⟨.subsection ⟨some "net", ⟨[
      ("port", ⟨.scalar (.text "80"), { flags := { writable := true } }⟩)]⟩⟩,
      { flags := { writable := true } }⟩),
    ("name", ⟨.scalar (.text "none"), { flags := { temporary := true } }⟩)]⟩⟩

/-- A layer on top of them, in which `net:port` is settled. -/
def site : Section :=
  ⟨none, ⟨[
    ("name", ⟨.scalar (.text "site"), { flags := { writable := true } }⟩),
    ("net", ⟨.subsection ⟨some "net", ⟨[
      ("host", ⟨.scalar (.text "h"), { flags := { writable := true } }⟩),
      ("port", ⟨.scalar (.text "81"), {}⟩)]⟩⟩, { flags := { writable := true } }⟩)]⟩⟩

/-- A layer that overwrites what the second one leaves open. -/
def user : Section :=
  ⟨none, ⟨[
    ("net", ⟨.subsection ⟨some "net", ⟨[
      ("user", ⟨.scalar (.text "u"), {}⟩),
      ("host", ⟨.scalar (.text "i"), {}⟩)]⟩⟩, {}⟩)]⟩⟩

/-- Three layers with a common section, of which each brings keys of its own, are merged in either
order, and the empty section is neutral. -/
theorem merge_associates_with_identity_layers :
    ∃ lower upper out, defaults.merge site = .ok lower ∧ lower.merge user = .ok out ∧
      site.merge user = .ok upper ∧ defaults.merge upper = .ok out ∧
      root.merge out = .ok out ∧ out.merge root = .ok out := by
  have hdefaults : defaults.Everywhere KeysDistinct := by
    refine .of_toList (by decide) ?_
    rintro _ (_ | ⟨_, _ | ⟨_, ⟨⟩⟩⟩) sub ⟨⟩
    refine .of_toList (by decide) ?_
    rintro _ (_ | ⟨_, ⟨⟩⟩) sub ⟨⟩
  have hsite : site.Everywhere KeysDistinct := by
    refine .of_toList (by decide) ?_
    rintro _ (_ | ⟨_, _ | ⟨_, ⟨⟩⟩⟩) sub ⟨⟩
    refine .of_toList (by decide) ?_
    rintro _ (_ | ⟨_, _ | ⟨_, ⟨⟩⟩⟩) sub ⟨⟩
  have huser : user.Everywhere KeysDistinct := by
    refine .of_toList (by decide) ?_
    rintro _ (_ | ⟨_, ⟨⟩⟩) sub ⟨⟩
    refine .of_toList (by decide) ?_
    rintro _ (_ | ⟨_, _ | ⟨_, ⟨⟩⟩⟩) sub ⟨⟩
  have hlower : SameShapes defaults site := by
    refine .of_toList (by decide) ?_
    rintro _ (_ | ⟨_, _ | ⟨_, ⟨⟩⟩⟩) sub sub' ⟨⟩ ⟨⟩
    refine .of_toList (by decide) ?_
    rintro _ (_ | ⟨_, ⟨⟩⟩) sub sub' ⟨⟩
  have hupper : SameShapes site user := by
    refine .of_toList (by decide) ?_
    rintro _ (_ | ⟨_, _ | ⟨_, ⟨⟩⟩⟩) sub sub' ⟨⟩ ⟨⟩
    refine .of_toList (by decide) ?_
    rintro _ (_ | ⟨_, _ | ⟨_, ⟨⟩⟩⟩) sub sub' ⟨⟩
  obtain ⟨hassoc, hidentity⟩ :=
    merge_associates_with_identity hdefaults hsite huser hlower hupper
  obtain ⟨upper, hupper, hout⟩ := Except.bind_eq_ok_iff.mp ((hassoc _).mp rfl)
  exact ⟨_, upper, _, rfl, rfl, hupper, hout, hidentity _ (by decide) rfl⟩

end LayeredConfig.Section
