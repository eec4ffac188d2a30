import LayeredConfig.Proofs.Section.Write
import LayeredConfig.Section.Merge

/-!
# What a successful merge gives

A merge takes the entries of its source one after the other (`merge_cons_iff`), and since the keys
of the source are distinct, each of them meets the destination as it was. So a merge can be read
key by key (`merge_eq_ok_iff`): it succeeds if every entry of the source can be absorbed at its key,
and then the keys of the destination come first and the new ones after them.
-/

namespace LayeredConfig.Section

variable {dst src out d m : Section} {key : String} {e old e' e₁ e₂ : Entry} {value : Value}
  {attrs : KeyAttrs} {entries : List (String × Entry)} {o : Option Entry}

/-- What becomes of an entry `old` of the destination, if there is one, when the entry `e` of the
same key is merged into it. -/
inductive Absorbed (e : Entry) : Option Entry → Entry → Prop
  | copied : Absorbed e none e
  | overwritten {old : Entry} (unprotected : old.attrs.isProtected = false)
      (shapes : (old.value.isSubsection && e.value.isSubsection) = false) :
      Absorbed e (some old) ⟨e.value, overlay old.attrs e.attrs⟩
  | descended {d src m : Section} {attrs : KeyAttrs} (unprotected : attrs.isProtected = false)
      (value : e.value = .subsection src) (merged : d.merge src = .ok m) :
      Absorbed e (some ⟨.subsection d, attrs⟩) ⟨.subsection m, overlay attrs e.attrs⟩

/-- An entry that is absorbed by an old one has found it unprotected. -/
theorem Absorbed.unprotected (h : Absorbed e (some old) e') : old.attrs.isProtected = false := by
  cases h with
  | overwritten unprotected _ => exact unprotected
  | descended unprotected _ _ => exact unprotected

/-- The flags of the new entry stand. -/
theorem Absorbed.flags_eq (h : Absorbed e o e') : e'.attrs.flags = e.attrs.flags := by
  cases h <;> rfl

/-- The outcome is protected if the new entry is. -/
theorem Absorbed.isProtected_eq (h : Absorbed e o e') :
    e'.attrs.isProtected = e.attrs.isProtected := by
  rw [KeyAttrs.isProtected, h.flags_eq, KeyAttrs.isProtected]

/-- The outcome holds a section if the new entry does. -/
theorem Absorbed.isSubsection_eq (h : Absorbed e o e') :
    e'.value.isSubsection = e.value.isSubsection := by
  cases h with
  | copied => rfl
  | overwritten _ _ => rfl
  | descended _ hvalue _ => simp [hvalue]

/-- There is one outcome only. -/
theorem Absorbed.unique (h₁ : Absorbed e o e₁) (h₂ : Absorbed e o e₂) : e₁ = e₂ := by
  cases h₁ with
  | copied =>
    cases h₂ with | copied => rfl
  | overwritten hprotected hshapes =>
    cases h₂ with
    | overwritten _ _ => rfl
    | descended _ hvalue _ => simp [hvalue] at hshapes
  | descended hprotected hvalue hmerged =>
    cases h₂ with
    -- two sections are never overwritten
    | overwritten _ hshapes => simp [hvalue] at hshapes
    | descended _ hvalue' hmerged' =>
      rw [hvalue] at hvalue'
      cases hvalue'
      rw [hmerged] at hmerged'
      cases hmerged'
      rfl

/-! ## One entry after the other -/

/-- A merge succeeds with the result that it is left with if there is no conflict. -/
theorem merge_eq_ok_iff_mergeInto :
    dst.merge src = .ok out ↔
      (dst.mergeInto src).conflict = none ∧ (dst.mergeInto src).result = out := by
  rw [merge]
  cases (dst.mergeInto src).conflict <;> simp

/-- A section keeps its name when another one is merged into it. -/
theorem name_eq_of_merge (h : dst.merge src = .ok out) : out.name = dst.name := by
  obtain ⟨-, rfl⟩ := merge_eq_ok_iff_mergeInto.mp h
  obtain ⟨name, ⟨entries⟩⟩ := src
  rfl

/-- A protected entry is a conflict, whatever is merged into it. -/
theorem mergeEntry_of_protected (hprotected : old.attrs.isProtected = true) :
    (mergeEntry key old value attrs).conflict ≠ none := by
  cases value with
  | scalar s => simp [mergeEntry, hprotected]
  | subsection src =>
    rw [mergeEntry]
    split <;> simp [hprotected]

/-- Where not both values are sections, the new one replaces the old one. -/
theorem mergeEntry_of_shapes (unprotected : old.attrs.isProtected = false)
    (hshapes : (old.value.isSubsection && value.isSubsection) = false) :
    mergeEntry key old value attrs = ⟨⟨value, overlay old.attrs attrs⟩, none⟩ := by
  cases value with
  | scalar s => simp [mergeEntry, unprotected]
  | subsection src =>
    rw [mergeEntry]
    split
    · simp [unprotected]
    · rename_i d hd
      simp [hd] at hshapes

/-- Merging an entry without a conflict gives what absorbs it. -/
theorem mergeEntry_iff :
    ((mergeEntry key old value attrs).conflict = none ∧
        (mergeEntry key old value attrs).result = e') ↔ Absorbed ⟨value, attrs⟩ (some old) e' := by
  by_cases hprotected : old.attrs.isProtected = true
  · constructor
    · exact fun h => absurd h.1 (mergeEntry_of_protected hprotected)
    · intro h
      rw [h.unprotected] at hprotected
      cases hprotected
  rw [Bool.not_eq_true] at hprotected
  by_cases hshapes : (old.value.isSubsection && value.isSubsection) = true
  · -- two sections, which are merged in turn
    rw [Bool.and_eq_true, Value.isSubsection_iff, Value.isSubsection_iff] at hshapes
    obtain ⟨oldValue, oldAttrs⟩ := old
    obtain ⟨⟨d, rfl⟩, src, rfl⟩ := hshapes
    simp only [mergeEntry, if_neg (ne_true_of_eq_false hprotected)]
    constructor
    · rintro ⟨hconflict, rfl⟩
      cases hm : (d.mergeInto src).conflict with
      | some error => simp [hm] at hconflict
      | none => exact .descended hprotected rfl (merge_eq_ok_iff_mergeInto.mpr ⟨hm, rfl⟩)
    · intro h
      cases h with
      | overwritten _ hshapes => cases hshapes
      | descended _ hvalue hmerged =>
        cases hvalue
        obtain ⟨hconflict, rfl⟩ := merge_eq_ok_iff_mergeInto.mp hmerged
        simp [hconflict]
  · rw [Bool.not_eq_true] at hshapes
    rw [mergeEntry_of_shapes hprotected hshapes]
    constructor
    · rintro ⟨-, rfl⟩
      exact .overwritten hprotected hshapes
    · intro h
      exact ⟨rfl, (Absorbed.overwritten hprotected hshapes).unique h⟩

/-- Merging no entries changes nothing. -/
theorem merge_nil_iff {name : Option String} : dst.merge ⟨name, ⟨[]⟩⟩ = .ok out ↔ out = dst := by
  obtain ⟨dstName, dstEntries⟩ := dst
  rw [merge_eq_ok_iff_mergeInto, mergeInto, mergeEntries]
  exact ⟨fun h => h.2.symm, fun h => ⟨rfl, h.symm⟩⟩

/-- The first entry of the source is absorbed, and the others are merged into the outcome. -/
theorem merge_cons_iff {name : Option String} :
    dst.merge ⟨name, ⟨(key, e) :: entries⟩⟩ = .ok out ↔
      ∃ e', Absorbed e (dst.entries.get? key) e' ∧
        merge { dst with entries := dst.entries.insert key e' } ⟨name, ⟨entries⟩⟩ = .ok out := by
  obtain ⟨value, attrs⟩ := e
  simp only [merge_eq_ok_iff_mergeInto, mergeInto, mergeEntries]
  cases hold : dst.entries.get? key with
  | none =>
    constructor
    · intro h
      exact ⟨_, .copied, h⟩
    · rintro ⟨e', habsorbed, h⟩
      cases habsorbed
      exact h
  | some old =>
    simp only []
    constructor
    · intro h
      cases hconflict : (mergeEntry key old value attrs).conflict with
      | some error => simp [hconflict] at h
      | none =>
        rw [hconflict] at h
        exact ⟨_, mergeEntry_iff.mp ⟨hconflict, rfl⟩, h⟩
    · rintro ⟨e', habsorbed, h⟩
      obtain ⟨hconflict, hresult⟩ := mergeEntry_iff.mpr habsorbed
      rw [hconflict, hresult]
      exact h

/-- Entries that come after others are merged into what those have left. -/
theorem merge_append_iff {name : Option String} {before after : List (String × Entry)} :
    dst.merge ⟨name, ⟨before ++ after⟩⟩ = .ok out ↔
      ∃ m, dst.merge ⟨name, ⟨before⟩⟩ = .ok m ∧ m.merge ⟨name, ⟨after⟩⟩ = .ok out := by
  induction before generalizing dst with
  | nil =>
    simp only [List.nil_append, merge_nil_iff]
    exact ⟨fun h => ⟨dst, rfl, h⟩, fun ⟨_, hm, h⟩ => hm ▸ h⟩
  | cons entry before ih =>
    obtain ⟨key, e⟩ := entry
    simp only [List.cons_append, merge_cons_iff, ih]
    constructor
    · rintro ⟨e', he', m, hm, h⟩
      exact ⟨m, ⟨e', he', hm⟩, h⟩
    · rintro ⟨m, ⟨e', he', hm⟩, h⟩
      exact ⟨e', he', m, hm, h⟩

/-! ## Key by key -/

/-- What becomes of a key when `src` is what the source of a merge has there. -/
def MergedAt (dst src out : Option Entry) : Prop :=
  match src with
  | none => out = dst
  | some e => ∃ e', Absorbed e dst e' ∧ out = some e'

/-- What becomes of a key is determined. -/
theorem MergedAt.unique {o₁ o₂ dst src : Option Entry} (h₁ : MergedAt dst src o₁)
    (h₂ : MergedAt dst src o₂) : o₁ = o₂ := by
  cases src with
  | none => exact Eq.trans h₁ (Eq.symm h₂)
  | some e =>
    obtain ⟨e₁, habsorbed₁, rfl⟩ := h₁
    obtain ⟨e₂, habsorbed₂, rfl⟩ := h₂
    rw [habsorbed₁.unique habsorbed₂]

/-- The keys of a merge: those of the destination, and after them the new ones of the source. -/
def mergedKeys (dst src : Section) : List String :=
  dst.entries.keys ++ src.entries.keys.filter (· ∉ dst.entries.keys)

/-- The keys of a merge are distinct if those of both sides are. -/
theorem nodup_mergedKeys (hdst : dst.KeysDistinct) (hsrc : src.KeysDistinct) :
    (mergedKeys dst src).Nodup := by
  refine List.Nodup.append hdst (hsrc.filter _) fun k hk hk' => ?_
  simpa [hk] using (List.mem_filter.mp hk').2

/-- A successful merge keeps the name, appends the new keys in their order, and merges key by
key. -/
theorem merge_spec (hsrc : src.KeysDistinct) (h : dst.merge src = .ok out) :
    out.name = dst.name ∧ out.entries.keys = mergedKeys dst src ∧
      ∀ k, MergedAt (dst.entries.get? k) (src.entries.get? k) (out.entries.get? k) := by
  obtain ⟨name, ⟨entries⟩⟩ := src
  induction entries generalizing dst with
  | nil =>
    obtain rfl := merge_nil_iff.mp h
    exact ⟨rfl, (List.append_nil _).symm, fun k => rfl⟩
  | cons entry entries ih =>
    obtain ⟨key, e⟩ := entry
    obtain ⟨hnew, hrest⟩ := List.nodup_cons.mp hsrc
    obtain ⟨e', habsorbed, hmerge⟩ := merge_cons_iff.mp h
    have hwrites := Writes.of_insert dst key e'
    obtain ⟨hname, hkeys, hget⟩ := ih hrest hmerge
    refine ⟨hname, ?_, fun k => ?_⟩
    · rw [hkeys, mergedKeys, mergedKeys, hwrites.keys]
      change _ = _ ++ (key :: entries.map (·.1)).filter _
      by_cases hkey : key ∈ dst.entries.keys
      · rw [if_pos hkey, List.filter_cons_of_neg (by simpa using hkey)]
        rfl
      · -- the new key is not among the keys that are still to come
        have hfilter : (entries.map (·.1)).filter (· ∉ dst.entries.keys ++ [key]) =
            (entries.map (·.1)).filter (· ∉ dst.entries.keys) := by
          refine List.filter_congr fun k hk => ?_
          have hne : k ≠ key := by
            rintro rfl
            exact hnew hk
          simp [hne]
        rw [if_neg hkey, List.filter_cons_of_pos (by simpa using hkey), ← hfilter,
          List.append_assoc]
        rfl
    · have hat := hget k
      rw [OrderedMap.get?_mk_cons]
      by_cases hk : k = key
      · subst hk
        rw [OrderedMap.get?_eq_none_iff.mpr hnew] at hat
        rw [if_pos rfl]
        exact ⟨e', habsorbed, Eq.trans hat hwrites.get?_self⟩
      · rw [if_neg hk]
        rwa [hwrites.get?_of_ne hk] at hat

/-- If every key can be merged, then so can the sections. -/
theorem exists_merge_eq_ok (hsrc : src.KeysDistinct)
    (h : ∀ k, ∃ o, MergedAt (dst.entries.get? k) (src.entries.get? k) o) :
    ∃ out, dst.merge src = .ok out := by
  obtain ⟨name, ⟨entries⟩⟩ := src
  induction entries generalizing dst with
  | nil => exact ⟨dst, merge_nil_iff.mpr rfl⟩
  | cons entry entries ih =>
    obtain ⟨key, e⟩ := entry
    obtain ⟨hnew, hrest⟩ := List.nodup_cons.mp hsrc
    simp only [OrderedMap.get?_mk_cons] at h
    obtain ⟨_, ho⟩ := h key
    rw [if_pos rfl] at ho
    obtain ⟨e', habsorbed, -⟩ := ho
    have hwrites := Writes.of_insert dst key e'
    obtain ⟨out, hout⟩ : ∃ out,
        merge { dst with entries := dst.entries.insert key e' } ⟨name, ⟨entries⟩⟩ = .ok out := by
      -- the rest of the source does not have the first key, and finds the other ones as they were
      refine ih hrest fun k => ?_
      by_cases hk : k = key
      · subst hk
        rw [OrderedMap.get?_eq_none_iff.mpr hnew]
        exact ⟨_, rfl⟩
      · obtain ⟨o, ho⟩ := h k
        rw [if_neg hk] at ho
        exact ⟨o, by rwa [hwrites.get?_of_ne hk]⟩
    exact ⟨out, merge_cons_iff.mpr ⟨e', habsorbed, hout⟩⟩

/-- A merge, read key by key. -/
theorem merge_eq_ok_iff (hdst : dst.KeysDistinct) (hsrc : src.KeysDistinct) :
    dst.merge src = .ok out ↔
      out.name = dst.name ∧ out.entries.keys = mergedKeys dst src ∧
        ∀ k, MergedAt (dst.entries.get? k) (src.entries.get? k) (out.entries.get? k) := by
  refine ⟨merge_spec hsrc, ?_⟩
  rintro ⟨hname, hkeys, hget⟩
  obtain ⟨out', hout'⟩ := exists_merge_eq_ok hsrc fun k => ⟨_, hget k⟩
  obtain ⟨hname', hkeys', hget'⟩ := merge_spec hsrc hout'
  -- the two outcomes have the same keys in the same order, and the same entry at each of them
  have hentries : out'.entries = out.entries := by
    refine OrderedMap.ext_get? ?_ (hkeys'.trans hkeys.symm) fun k => (hget' k).unique (hget k)
    rw [hkeys']
    exact nodup_mergedKeys hdst hsrc
  obtain ⟨name, outEntries⟩ := out
  obtain ⟨name', outEntries'⟩ := out'
  obtain rfl : name' = name := hname'.trans hname.symm
  obtain rfl : outEntries' = outEntries := hentries
  exact hout'

/-- Merged into the empty tree, a tree is what it was. -/
theorem root_merge (hsrc : src.KeysDistinct) (hname : src.name = none) :
    root.merge src = .ok src := by
  have hroot : root.KeysDistinct := List.nodup_nil
  refine (merge_eq_ok_iff hroot hsrc).mpr ⟨hname, ?_, fun k => ?_⟩
  · exact (List.filter_true src.entries.keys).symm
  · cases hget : src.entries.get? k with
    | none => rfl
    | some e => exact ⟨e, .copied, rfl⟩

end LayeredConfig.Section
