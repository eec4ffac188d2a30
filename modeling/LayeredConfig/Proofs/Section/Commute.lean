import LayeredConfig.Proofs.Section.Merge

/-!
# Writing before a merge and after it

To change a key of `s` and merge the result into `t` is one thing, to merge `s` into `t` and change
the key of what comes out is another. They agree if they agree at the one key, which concerns three
entries and no trees (`Alters.commutes`); and they agree at the end of a path if they agree in the
section that it leads to (`commutes_updatesAt`), as long as `s` has the sections of the path.
-/

namespace LayeredConfig.Section

variable {t s a s' a' sub : Section} {key : String} {e e' : Entry} {o : Option Entry}
  {attrs : KeyAttrs} {path : List String}

/-! ## Squares -/

/-- Changing `s` by `R` before it is merged into `t` has the same results as changing the outcome
of the merge by `R`. -/
def Commutes (R : Section → Section → Prop) (t s : Section) : Prop :=
  ∀ a', (∃ s', R s s' ∧ t.merge s' = .ok a') ↔ ∃ a, t.merge s = .ok a ∧ R a a'

/-- The same at one key, where `t` and `s` stand for what the two sections have there. -/
def CommutesAt (G : Option Entry → Entry → Prop) (t s : Option Entry) : Prop :=
  ∀ e', (∃ e, G s e ∧ Absorbed e t e') ↔ ∃ o, MergedAt t s o ∧ G o e'

/-- A write on either side of a merge leaves a merge, if the entries that are written belong
together. -/
theorem merge_of_writes (ht : t.KeysDistinct) (hs : s.KeysDistinct) (h : t.merge s = .ok a)
    (hs' : Writes s key e s') (ha' : Writes a key e' a')
    (habsorbed : Absorbed e (t.entries.get? key) e') : t.merge s' = .ok a' := by
  obtain ⟨hname, hkeys, hget⟩ := (merge_eq_ok_iff ht hs).mp h
  refine (merge_eq_ok_iff ht (hs'.keysDistinct hs)).mpr
    ⟨ha'.name.trans hname, ?_, fun k => ?_⟩
  · rw [ha'.keys, hkeys, mergedKeys, mergedKeys, hs'.keys]
    -- the key goes to the end of both lists, or it is in both already
    by_cases hkey : key ∈ s.entries.keys
    · by_cases hkey' : key ∈ t.entries.keys <;> simp [hkey, hkey']
    · by_cases hkey' : key ∈ t.entries.keys <;> simp [hkey, hkey']
  · by_cases hk : k = key
    · subst hk
      rw [hs'.get?_self, ha'.get?_self]
      exact ⟨e', habsorbed, rfl⟩
    · rw [hs'.get?_of_ne hk, ha'.get?_of_ne hk]
      exact hget k

/-- An operation on one key commutes with a merge if it does so at this key. -/
theorem Alters.commutes {R : Section → Section → Prop} {G : Option Entry → Entry → Prop}
    (hR : Alters R key G) (ht : t.KeysDistinct) (hs : s.KeysDistinct)
    (hkey : CommutesAt G (t.entries.get? key) (s.entries.get? key)) : Commutes R t s := by
  intro a'
  constructor
  · rintro ⟨s', hs', hmerge'⟩
    obtain ⟨e, he, hwrites⟩ := hR.writes hs'
    obtain ⟨-, -, hget'⟩ := (merge_eq_ok_iff ht (hwrites.keysDistinct hs)).mp hmerge'
    obtain ⟨e', habsorbed, -⟩ : ∃ e', Absorbed e (t.entries.get? key) e' ∧ _ := by
      have hat := hget' key
      rwa [hwrites.get?_self] at hat
    obtain ⟨o, ho, hG⟩ := (hkey e').mp ⟨e, he, habsorbed⟩
    -- the other keys are merged as they are in the merge that is given
    obtain ⟨a, hmerge⟩ : ∃ a, t.merge s = .ok a := exists_merge_eq_ok hs fun k => by
      by_cases hk : k = key
      · exact ⟨o, hk ▸ ho⟩
      · exact ⟨_, hwrites.get?_of_ne hk ▸ hget' k⟩
    obtain rfl := (((merge_eq_ok_iff ht hs).mp hmerge).2.2 key).unique ho
    obtain ⟨a'', ha'', hwrites'⟩ := hR.succeeds hG
    have hmerge'' := merge_of_writes ht hs hmerge hwrites hwrites' habsorbed
    rw [hmerge'] at hmerge''
    cases hmerge''
    exact ⟨a, hmerge, ha''⟩
  · rintro ⟨a, hmerge, ha'⟩
    obtain ⟨e', he', hwrites'⟩ := hR.writes ha'
    have hat := ((merge_eq_ok_iff ht hs).mp hmerge).2.2 key
    obtain ⟨e, he, habsorbed⟩ := (hkey e').mpr ⟨_, hat, he'⟩
    obtain ⟨s', hs', hwrites⟩ := hR.succeeds he
    exact ⟨s', hs', merge_of_writes ht hs hmerge hwrites hwrites' habsorbed⟩

/-! ## Below a path -/

/-- At the first name of a path, where `s` has a section. -/
theorem commutesAt_updatedBelow {f : Section → Except ε Section} {t : Option Entry}
    (hbelow : ∀ d dAttrs, t = some ⟨.subsection d, dAttrs⟩ → Commutes (UpdatesAt f path) d sub) :
    CommutesAt (UpdatedBelow f path) t (some ⟨.subsection sub, attrs⟩) := by
  intro e'
  constructor
  · rintro ⟨_, ⟨sub₁, attrs₁, sub', hsub, hsub', rfl⟩, habsorbed⟩
    cases hsub
    cases habsorbed with
    | copied => exact ⟨_, ⟨_, .copied, rfl⟩, sub, attrs, sub', rfl, hsub', rfl⟩
    | overwritten unprotected shapes =>
      exact ⟨_, ⟨_, .overwritten unprotected shapes, rfl⟩, sub, _, sub', rfl, hsub', rfl⟩
    | @descended d _ m' dAttrs unprotected hvalue merged =>
      cases hvalue
      obtain ⟨m, hm, hm'⟩ := (hbelow d dAttrs rfl m').mp ⟨sub', hsub', merged⟩
      exact ⟨_, ⟨_, .descended unprotected rfl hm, rfl⟩, m, _, m', rfl, hm', rfl⟩
  · rintro ⟨_, ⟨e, habsorbed, rfl⟩, m, mAttrs, m', hm, hm', rfl⟩
    cases hm
    generalize hvalue : Value.subsection m = value at habsorbed
    cases habsorbed with
    | copied =>
      cases hvalue
      exact ⟨_, ⟨_, _, m', rfl, hm', rfl⟩, .copied⟩
    | overwritten unprotected shapes =>
      cases hvalue
      exact ⟨_, ⟨_, _, m', rfl, hm', rfl⟩, .overwritten unprotected shapes⟩
    | @descended d _ _ dAttrs unprotected hsub merged =>
      cases hvalue
      cases hsub
      obtain ⟨sub', hsub', hmerged'⟩ := (hbelow d dAttrs rfl m').mpr ⟨m, merged, hm'⟩
      exact ⟨_, ⟨_, _, sub', rfl, hsub', rfl⟩, .descended unprotected rfl hmerged'⟩

/-- An operation that commutes with merging one section into another, both of them in trees of a
certain kind, commutes with merging these trees. -/
theorem commutes_updatesAt {f : Section → Except ε Section} {P Q : Section → Prop}
    (hP : ∀ t, P t → t.KeysDistinct) (hQ : ∀ s, Q s → s.KeysDistinct)
    (hf : ∀ t s, P t → Q s → Commutes (fun s s' => f s = .ok s') t s)
    (ht : t.Everywhere P) (hs : s.Everywhere Q) (hopen : (s.sectionAt? path).isSome) :
    Commutes (UpdatesAt f path) t s := by
  induction path generalizing t s with
  | nil =>
    intro a'
    simp only [updatesAt_nil_iff]
    exact hf t s ht.holds hs.holds a'
  | cons name path ih =>
    rw [sectionAt?_cons] at hopen
    cases hsub : s.subsection? name with
    | none => simp [hsub] at hopen
    | some sub =>
      rw [hsub] at hopen
      obtain ⟨attrs, hget⟩ := subsection?_eq_some_iff.mp hsub
      refine (updatesAt_cons_alters f name path).commutes (hP t ht.holds) (hQ s hs.holds) ?_
      rw [hget]
      refine commutesAt_updatedBelow fun d dAttrs hd => ?_
      exact ih (ht.down (subsection?_of_get? hd)) (hs.down hsub) hopen

end LayeredConfig.Section
