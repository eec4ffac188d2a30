import LayeredConfig.Proofs.Section.Levels
import Mathlib.Data.List.TakeWhile

/-!
# Where a merge stops

A merge that meets a protected key stops there, in the middle of the recursion: what the keys before
it have done stays done, at this level and at every level above, and the sections around it are left
without the attributes that they would have got. `StopsAt` follows the recursion down to the key.
Two things come out of it. In document order, in which a key stands before the keys of the section
that it holds, no key before this one has met a protected one. And what is left is a merge that
succeeds, namely that of the source cut off before the key (`StopsAt.merge_cutBefore`).
-/

namespace LayeredConfig.Section

variable {dst src s out sub d : Section} {q r path : List String} {k name : String}
  {e old new entry : Entry} {attrs : KeyAttrs} {error : SectionError}
  {entries before after : List (String × Entry)}

/-! ## The keys of a tree in order -/

mutual

/-- The paths of all keys of a section, in document order. -/
def keyPaths : Section → List (List String)
  | ⟨_, ⟨entries⟩⟩ => keyPathsOfEntries entries

/-- The paths of the keys of some entries. A key stands before the keys below it. -/
def keyPathsOfEntries : List (String × Entry) → List (List String)
  | [] => []
  | (key, ⟨value, _⟩) :: entries =>
    [key] :: ((keyPathsOfValue value).map (key :: ·) ++ keyPathsOfEntries entries)

/-- The paths of the keys below a key with the given value. -/
def keyPathsOfValue : Value → List (List String)
  | .scalar _ => []
  | .subsection s => keyPaths s

end

/-- The key paths of a section are those of its entries. -/
theorem keyPaths_eq (s : Section) : s.keyPaths = keyPathsOfEntries s.entries.toList := by
  obtain ⟨name, ⟨entries⟩⟩ := s
  rfl

/-- The key paths of appended entries are appended. -/
theorem keyPathsOfEntries_append (before after : List (String × Entry)) :
    keyPathsOfEntries (before ++ after) = keyPathsOfEntries before ++ keyPathsOfEntries after := by
  induction before with
  | nil => rfl
  | cons entry before ih =>
    obtain ⟨key, value, attrs⟩ := entry
    simp only [List.cons_append, keyPathsOfEntries, ih, List.append_assoc]

/-- A key path leads to an entry, or goes on below one. -/
theorem exists_of_mem_keyPathsOfEntries (h : r ∈ keyPathsOfEntries entries) :
    ∃ key entry, (key, entry) ∈ entries ∧
      (r = [key] ∨ ∃ q ∈ keyPathsOfValue entry.value, r = key :: q) := by
  induction entries with
  | nil => cases h
  | cons first entries ih =>
    obtain ⟨key, value, attrs⟩ := first
    rw [keyPathsOfEntries, List.mem_cons, List.mem_append, List.mem_map] at h
    rcases h with rfl | ⟨q, hq, rfl⟩ | h
    · exact ⟨key, _, List.mem_cons_self, .inl rfl⟩
    · exact ⟨key, ⟨value, attrs⟩, List.mem_cons_self, .inr ⟨q, hq, rfl⟩⟩
    · obtain ⟨key', entry', hmem, hr⟩ := ih h
      exact ⟨key', entry', List.mem_cons_of_mem _ hmem, hr⟩

/-- Every path in the list leads to a key. -/
theorem exists_entryAt?_of_mem_keyPaths (hs : s.Everywhere KeysDistinct) (h : r ∈ s.keyPaths) :
    ∃ e, s.entryAt? r = some e := by
  induction s using subsection_induction generalizing r with
  | step s ih =>
    rw [keyPaths_eq] at h
    obtain ⟨key, ⟨value, attrs⟩, hmem, hr⟩ := exists_of_mem_keyPathsOfEntries h
    have hget := OrderedMap.get?_of_mem hs.holds hmem
    rcases hr with rfl | ⟨q, hq, rfl⟩
    · exact ⟨_, by rw [entryAt?_singleton, hget]⟩
    · cases value with
      | scalar v => cases hq
      | subsection sub =>
        have hsub := subsection?_of_get? hget
        obtain ⟨e, he⟩ := ih key sub hsub (hs.down hsub) hq
        have hne : q ≠ [] := by
          rintro rfl
          cases he
        exact ⟨e, by rw [entryAt?_cons s key hne, hsub, Option.bind_some, he]⟩

/-! ## Cutting a tree off -/

/-- The tree up to a key: the key `k` of the section at `path`, and all that comes after it in
document order, is left out. -/
def cutBefore (k : String) : (path : List String) → Section → Section
  | [], s => { s with entries := ⟨s.entries.toList.takeWhile (·.1 ≠ k)⟩ }
  | name :: path, s =>
    { s with entries := ⟨s.entries.toList.takeWhile (·.1 ≠ name) ++
      match s.entries.get? name with
      | some ⟨.subsection sub, attrs⟩ => [(name, ⟨.subsection (cutBefore k path sub), attrs⟩)]
      | _ => []⟩ }

/-- An entry is found under its key, whatever stands around it. -/
theorem get?_of_toList_eq (hs : s.KeysDistinct)
    (h : s.entries.toList = before ++ (k, e) :: after) : s.entries.get? k = some e := by
  refine OrderedMap.get?_of_mem hs ?_
  rw [h]
  exact List.mem_append_right before List.mem_cons_self

/-- A key does not occur among the entries in front of its own. -/
theorem fresh_of_keysDistinct (hs : s.KeysDistinct)
    (h : s.entries.toList = before ++ (k, e) :: after) : k ∉ before.map (·.1) := by
  unfold KeysDistinct OrderedMap.keys at hs
  rw [h, List.map_append, List.nodup_append] at hs
  intro hmem
  exact hs.2.2 k hmem k (by simp) rfl

/-- The entries up to a key that occurs once are those in front of it. -/
theorem takeWhile_ne_eq (h : k ∉ before.map (·.1)) :
    (before ++ (k, e) :: after).takeWhile (·.1 ≠ k) = before := by
  have hne : ∀ entry ∈ before, decide (entry.1 ≠ k) = true := by
    intro entry hmem
    refine decide_eq_true ?_
    rintro rfl
    exact h (List.mem_map_of_mem hmem)
  rw [List.takeWhile_append_of_pos hne, List.takeWhile_cons_of_neg (by simp), List.append_nil]

/-- Cutting a section before one of its own keys leaves the entries in front of that key. -/
theorem cutBefore_nil (hs : s.KeysDistinct)
    (h : s.entries.toList = before ++ (k, e) :: after) :
    cutBefore k [] s = ⟨s.name, ⟨before⟩⟩ := by
  rw [cutBefore, h, takeWhile_ne_eq (fresh_of_keysDistinct hs h)]

/-- Cutting below a name leaves the entries in front of it and a last section, which is cut in
turn. -/
theorem cutBefore_cons (hs : s.KeysDistinct)
    (h : s.entries.toList = before ++ (name, ⟨.subsection sub, attrs⟩) :: after) :
    cutBefore k (name :: path) s =
      ⟨s.name, ⟨before ++ [(name, ⟨.subsection (cutBefore k path sub), attrs⟩)]⟩⟩ := by
  rw [cutBefore, get?_of_toList_eq hs h, h, takeWhile_ne_eq (fresh_of_keysDistinct hs h)]

/-- Leaving out entries keeps keys distinct on every level. -/
theorem keysDistinct_of_sublist (hs : s.Everywhere KeysDistinct)
    (h : entries.Sublist s.entries.toList) :
    (Section.mk s.name ⟨entries⟩).Everywhere KeysDistinct := by
  refine .of_toList ((h.map _).nodup hs.holds) fun entry hmem sub hsub => ?_
  exact hs.of_get? (OrderedMap.get?_of_mem hs.holds (h.subset hmem)) hsub

/-- A tree that has been cut has distinct keys on every level. -/
theorem keysDistinct_cutBefore (hs : s.Everywhere KeysDistinct) (k : String) (path : List String) :
    (cutBefore k path s).Everywhere KeysDistinct := by
  induction path generalizing s with
  | nil => exact keysDistinct_of_sublist hs (List.takeWhile_sublist _)
  | cons name path ih =>
    have hbefore := keysDistinct_of_sublist hs
      (List.takeWhile_sublist (fun entry : String × Entry => entry.1 ≠ name))
    rw [cutBefore]
    split
    · rename_i sub attrs hget
      refine .of_toList ?_ fun entry hmem inner hinner => ?_
      · -- the key that is entered is not among those before it
        unfold KeysDistinct OrderedMap.keys
        rw [List.map_append]
        refine List.Nodup.append hbefore.holds (List.nodup_singleton name) ?_
        rintro _ hmem hname
        obtain ⟨entry, hentry, rfl⟩ := List.mem_map.mp hmem
        have hne := List.mem_takeWhile_imp hentry
        simp at hname hne
        exact hne hname
      · rcases List.mem_append.mp hmem with hmem | hmem
        · exact hbefore.of_get? (OrderedMap.get?_of_mem hbefore.holds hmem) hinner
        · obtain rfl := List.mem_singleton.mp hmem
          cases hinner
          exact ih (hs.of_get? hget rfl)
    · rwa [List.append_nil]

/-! ## Following a merge to the conflict -/

/-- The error for a key at which a protected entry stands in the way. -/
def refusal (k : String) (old new : Value) : SectionError :=
  if old.isSubsection && new.isSubsection then .sectionNotWritable k else .keyNotWritable k

/-- Merging `src` into `dst` stops at the key `k` of the section at a path, and leaves `out`. At
each level the keys before the one that is entered have been merged. -/
inductive StopsAt :
    (dst src : Section) → (path : List String) → (k : String) → SectionError → Section → Prop
  | here {dst src out : Section} {k : String} {old new : Entry}
      {before after : List (String × Entry)}
      (entries : src.entries.toList = before ++ (k, new) :: after)
      (merged : dst.merge ⟨src.name, ⟨before⟩⟩ = .ok out)
      (found : dst.entries.get? k = some old) (isProtected : old.attrs.isProtected = true) :
      StopsAt dst src [] k (refusal k old.value new.value) out
  | inside {dst src d s mid sub : Section} {name k : String} {path : List String}
      {attrs attrs' : KeyAttrs} {error : SectionError} {before after : List (String × Entry)}
      (entries : src.entries.toList = before ++ (name, ⟨.subsection s, attrs'⟩) :: after)
      (merged : dst.merge ⟨src.name, ⟨before⟩⟩ = .ok mid)
      (found : dst.entries.get? name = some ⟨.subsection d, attrs⟩)
      (unprotected : attrs.isProtected = false) (stops : StopsAt d s path k error sub) :
      StopsAt dst src (name :: path) k error
        { mid with entries := mid.entries.insert name ⟨.subsection sub, attrs⟩ }

/-- A merge stops at an entry that is protected, or inside two sections. -/
theorem mergeEntry_conflict {value : Value}
    (h : (mergeEntry k old value attrs).conflict = some error) :
    (old.attrs.isProtected = true ∧ error = refusal k old.value value ∧
        (mergeEntry k old value attrs).result = old) ∨
      ∃ d s, old.attrs.isProtected = false ∧ old.value = .subsection d ∧ value = .subsection s ∧
        (d.mergeInto s).conflict = some error ∧
        (mergeEntry k old value attrs).result =
          ⟨.subsection (d.mergeInto s).result, old.attrs⟩ := by
  by_cases hprotected : old.attrs.isProtected = true
  · refine .inl ⟨hprotected, ?_⟩
    obtain ⟨oldValue, oldAttrs⟩ := old
    cases value <;> cases oldValue <;>
      simp_all [mergeEntry, refusal, Value.isSubsection_scalar, Value.isSubsection_subsection]
  rw [Bool.not_eq_true] at hprotected
  by_cases hshapes : (old.value.isSubsection && value.isSubsection) = true
  · rw [Bool.and_eq_true, Value.isSubsection_iff, Value.isSubsection_iff] at hshapes
    obtain ⟨oldValue, oldAttrs⟩ := old
    obtain ⟨⟨d, rfl⟩, s, rfl⟩ := hshapes
    simp only [mergeEntry, if_neg (ne_true_of_eq_false hprotected)] at h ⊢
    cases hm : (d.mergeInto s).conflict with
    | none => simp [hm] at h
    | some error' =>
      simp only [hm, Option.some.injEq] at h
      subst h
      exact .inr ⟨d, s, hprotected, rfl, rfl, hm, rfl⟩
  · rw [Bool.not_eq_true] at hshapes
    rw [mergeEntry_of_shapes hprotected hshapes] at h
    cases h

/-- Of the entries that are merged one after the other, the one at which the merge stops. -/
theorem mergeEntries_conflict {map : OrderedMap Entry}
    (h : (mergeEntries map entries).conflict = some error) :
    ∃ before key new after old, entries = before ++ (key, new) :: after ∧
      (mergeEntries map before).conflict = none ∧
      (mergeEntries map before).result.get? key = some old ∧
      (mergeEntry key old new.value new.attrs).conflict = some error ∧
      (mergeEntries map entries).result = (mergeEntries map before).result.insert key
        (mergeEntry key old new.value new.attrs).result := by
  induction entries generalizing map with
  | nil => cases h
  | cons entry entries ih =>
    obtain ⟨key, value, attrs⟩ := entry
    rw [mergeEntries] at h ⊢
    cases hold : map.get? key with
    | none =>
      simp only [hold] at h ⊢
      obtain ⟨before, key', new, after, old, rfl, hnone, hget, hconflict, hresult⟩ := ih h
      refine ⟨(key, ⟨value, attrs⟩) :: before, key', new, after, old, rfl, ?_⟩
      simp only [mergeEntries, hold]
      exact ⟨hnone, hget, hconflict, hresult⟩
    | some old =>
      simp only [hold] at h ⊢
      cases hm : (mergeEntry key old value attrs).conflict with
      | some error' =>
        -- the merge stops at this entry
        simp only [hm, Option.some.injEq] at h ⊢
        subst h
        exact ⟨[], key, ⟨value, attrs⟩, entries, old, rfl, rfl, hold, hm, rfl⟩
      | none =>
        simp only [hm] at h ⊢
        obtain ⟨before, key', new, after, old', rfl, hnone, hget, hconflict, hresult⟩ := ih h
        refine ⟨(key, ⟨value, attrs⟩) :: before, key', new, after, old', rfl, ?_⟩
        simp only [mergeEntries, hold, hm]
        exact ⟨hnone, hget, hconflict, hresult⟩

/-- What has been merged before a key does not concern it. -/
theorem get?_of_merge_before (hs : src.Everywhere KeysDistinct)
    (h : src.entries.toList = before ++ (k, e) :: after)
    (hmerge : dst.merge ⟨src.name, ⟨before⟩⟩ = .ok out) :
    out.entries.get? k = dst.entries.get? k := by
  have hsublist : before.Sublist src.entries.toList := by simp [h]
  have hbefore := keysDistinct_of_sublist hs hsublist
  obtain ⟨-, -, hget⟩ := merge_spec hbefore.holds hmerge
  have hat := hget k
  rwa [OrderedMap.get?_eq_none_iff.mpr (fresh_of_keysDistinct hs.holds h)] at hat

/-- A merge that fails stops somewhere. -/
theorem exists_stopsAt (hsrc : src.Everywhere KeysDistinct)
    (h : (dst.mergeInto src).conflict = some error) :
    ∃ path k, StopsAt dst src path k error (dst.mergeInto src).result := by
  induction dst using subsection_induction generalizing src with
  | step dst ih =>
    obtain ⟨name, ⟨entries⟩⟩ := src
    obtain ⟨before, key, ⟨value, attrs⟩, after, old, rfl, hnone, hget, hconflict, hresult⟩ :=
      mergeEntries_conflict h
    have hmerged : dst.merge ⟨name, ⟨before⟩⟩ = .ok
        { dst with entries := (mergeEntries dst.entries before).result } :=
      merge_eq_ok_iff_mergeInto.mpr ⟨hnone, rfl⟩
    -- the keys in front of the conflict are other keys, so that the old entry stands in the
    -- destination
    have hfound : dst.entries.get? key = some old := by
      rw [← hget]
      exact (get?_of_merge_before hsrc rfl hmerged).symm
    rw [mergeInto, hresult]
    rcases mergeEntry_conflict hconflict with
      ⟨hprotected, rfl, hstuck⟩ | ⟨d, s, hfree, hd, rfl, hinside, hstuck⟩
    · refine ⟨[], key, ?_⟩
      rw [hstuck, OrderedMap.insert_of_get? hget]
      exact .here rfl hmerged hfound hprotected
    · obtain ⟨oldValue, oldAttrs⟩ := old
      obtain rfl : oldValue = .subsection d := hd
      have hs := hsrc.of_get? (get?_of_toList_eq hsrc.holds rfl) rfl
      -- the conflict is inside a section that both have, which is smaller
      obtain ⟨path, k, hstops⟩ := ih key d (subsection?_of_get? hfound) hs hinside
      refine ⟨key :: path, k, ?_⟩
      rw [hstuck]
      exact .inside rfl hmerged hfound hfree hstops

/-! ## What is left behind -/

/-- The section `s` with the attributes that the sections along a path have in `dst`. -/
def restoreAlong : (dst : Section) → (path : List String) → (s : Section) → Section
  | _, [], s => s
  | dst, name :: path, s =>
    match dst.entries.get? name, s.entries.get? name with
    | some ⟨.subsection d, attrs⟩, some ⟨.subsection sub, _⟩ =>
      { s with entries := s.entries.insert name ⟨.subsection (restoreAlong d path sub), attrs⟩ }
    | _, _ => s

/-- Restoring the attributes along a path gives the first section on it the attributes that it has
in the destination. -/
theorem restoreAlong_insert (hdst : dst.entries.get? name = some ⟨.subsection d, attrs⟩)
    (s sub : Section) (attrs' : KeyAttrs) :
    restoreAlong dst (name :: path)
        { s with entries := s.entries.insert name ⟨.subsection sub, attrs'⟩ } =
      { s with
        entries := s.entries.insert name ⟨.subsection (restoreAlong d path sub), attrs⟩ } := by
  have hget : (s.entries.insert name ⟨.subsection sub, attrs'⟩).get? name =
      some ⟨.subsection sub, attrs'⟩ := by
    rw [OrderedMap.get?_insert, if_pos rfl]
  simp only [restoreAlong, hdst, hget, OrderedMap.insert_insert]

/-- What is left is the merge of the source cut off before the conflict, but for the attributes of
the sections around it. -/
theorem StopsAt.merge_cutBefore (hsrc : src.Everywhere KeysDistinct)
    (h : StopsAt dst src path k error out) :
    ∃ whole, dst.merge (cutBefore k path src) = .ok whole ∧ out = restoreAlong dst path whole := by
  induction h with
  | here entries merged _ _ =>
    rw [cutBefore_nil hsrc.holds entries]
    exact ⟨_, merged, rfl⟩
  | @inside dst src d s mid sub name k path attrs attrs' error before after entries merged found
      unprotected _ ih =>
    have hs := hsrc.of_get? (get?_of_toList_eq hsrc.holds entries) rfl
    obtain ⟨w, hw, rfl⟩ := ih hs
    have hmid : mid.entries.get? name = some ⟨.subsection d, attrs⟩ := by
      rw [get?_of_merge_before hsrc entries merged, found]
    -- cut before the conflict, the nested section merges, and would then overlay the attributes
    have habsorbed : Absorbed ⟨.subsection (cutBefore k path s), attrs'⟩ (mid.entries.get? name)
        ⟨.subsection w, overlay attrs attrs'⟩ := by
      rw [hmid]
      exact .descended unprotected rfl hw
    rw [cutBefore_cons hsrc.holds entries]
    refine ⟨_, merge_append_iff.mpr
      ⟨mid, merged, merge_cons_iff.mpr ⟨_, habsorbed, merge_nil_iff.mpr rfl⟩⟩, ?_⟩
    rw [restoreAlong_insert found]

/-- In document order, the keys before the conflict are those of the source cut off there. -/
theorem StopsAt.keyPaths_eq (hsrc : src.Everywhere KeysDistinct)
    (h : StopsAt dst src path k error out) :
    ∃ rest, src.keyPaths = (cutBefore k path src).keyPaths ++ (path ++ [k]) :: rest := by
  induction h with
  | @here _ src _ k _ new before after entries _ _ _ =>
    obtain ⟨value, attrs⟩ := new
    rw [cutBefore_nil hsrc.holds entries, Section.keyPaths_eq, entries, keyPathsOfEntries_append]
    exact ⟨(keyPathsOfValue value).map (k :: ·) ++ keyPathsOfEntries after, rfl⟩
  | @inside _ src _ s _ _ name k path _ _ _ before after entries _ _ _ _ ih =>
    have hs := hsrc.of_get? (get?_of_toList_eq hsrc.holds entries) rfl
    obtain ⟨rest, hrest⟩ := ih hs
    rw [cutBefore_cons hsrc.holds entries, Section.keyPaths_eq, entries, Section.keyPaths_eq,
      keyPathsOfEntries_append, keyPathsOfEntries_append]
    refine ⟨rest.map (name :: ·) ++ keyPathsOfEntries after, ?_⟩
    simp [keyPathsOfEntries, keyPathsOfValue, hrest]

/-- The two entries that collide, of which that of the destination stays as it is. -/
theorem StopsAt.collides (hsrc : src.Everywhere KeysDistinct)
    (h : StopsAt dst src path k error out) :
    ∃ old new, dst.entryAt? (path ++ [k]) = some old ∧ src.entryAt? (path ++ [k]) = some new ∧
      old.attrs.isProtected = true ∧ error = refusal k old.value new.value ∧
      out.entryAt? (path ++ [k]) = some old := by
  induction h with
  | @here dst src out k old new before after entries merged found isProtected =>
    refine ⟨old, new, ?_, ?_, isProtected, rfl, ?_⟩
    · rw [List.nil_append, entryAt?_singleton, found]
    · rw [List.nil_append, entryAt?_singleton, get?_of_toList_eq hsrc.holds entries]
    · rw [List.nil_append, entryAt?_singleton, get?_of_merge_before hsrc entries merged, found]
  | @inside dst src d s mid sub name k path attrs attrs' error before after entries merged found
      unprotected _ ih =>
    have hget := get?_of_toList_eq hsrc.holds entries
    obtain ⟨old, new, hold, hnew, hprotected, herror, hout⟩ := ih (hsrc.of_get? hget rfl)
    have hne : path ++ [k] ≠ [] := by simp
    refine ⟨old, new, ?_, ?_, hprotected, herror, ?_⟩
    · rw [List.cons_append, entryAt?_cons dst name hne, subsection?_of_get? found,
        Option.bind_some, hold]
    · rw [List.cons_append, entryAt?_cons src name hne, subsection?_of_get? hget,
        Option.bind_some, hnew]
    · -- what is left is the half-merged section in the place of the old one
      have hwrites := Writes.of_insert mid name ⟨.subsection sub, attrs⟩
      rw [List.cons_append, entryAt?_cons _ name hne, subsection?_of_get? hwrites.get?_self,
        Option.bind_some, hout]

/-- The sections around the conflict keep their attributes. -/
theorem StopsAt.lookupAttrs?_enclosing (h : StopsAt dst src path k error out) (hq : q ≠ [])
    (hpath : q <+: path) : out.lookupAttrs? q = dst.lookupAttrs? q := by
  induction h generalizing q with
  | here => exact absurd (List.prefix_nil.mp hpath) hq
  | @inside dst src d s mid sub name k path attrs attrs' error before after entries merged found
      unprotected _ ih =>
    obtain ⟨x, q, rfl⟩ := List.exists_cons_of_ne_nil hq
    obtain ⟨rfl, hbelow⟩ := List.cons_prefix_cons.mp hpath
    have hwrites := Writes.of_insert mid x ⟨.subsection sub, attrs⟩
    rw [lookupAttrs?, lookupAttrs?]
    by_cases hne : q = []
    · rw [hne, entryAt?_singleton, entryAt?_singleton, hwrites.get?_self, found]
      rfl
    · rw [entryAt?_cons _ x hne, entryAt?_cons dst x hne, subsection?_of_get? hwrites.get?_self,
        subsection?_of_get? found]
      exact ih hne hbelow

/-! ## What is reached -/

/-- Merging `src` reaches the key at a path: `src` has the key, or it has a scalar at a key
around it, which replaces all that is there. -/
def Reaches (src : Section) (q : List String) : Prop :=
  ∃ r e, r <+: q ∧ src.entryAt? r = some e ∧ (r = q ∨ e.value.isSubsection = false)

/-- What a nested section reaches, the section around it reaches. -/
theorem Reaches.cons (hs : src.subsection? k = some s) (h : Reaches s q) :
    Reaches src (k :: q) := by
  obtain ⟨r, e, hr, he, hshape⟩ := h
  have hne : r ≠ [] := by
    rintro rfl
    cases he
  refine ⟨k :: r, e, List.cons_prefix_cons.mpr ⟨rfl, hr⟩, ?_, hshape.imp_left (congrArg _)⟩
  rw [entryAt?_cons src k hne, hs, Option.bind_some, he]

/-- A key that is around a path and that the source has holds a section there. -/
theorem exists_subsection?_of_not_reaches (h : ¬ Reaches src (k :: q))
    (hnew : src.entries.get? k = some new) :
    q ≠ [] ∧ ∃ s, new.value = .subsection s ∧ ¬ Reaches s q := by
  have hk : [k] <+: k :: q := List.cons_prefix_cons.mpr ⟨rfl, List.nil_prefix⟩
  have hentry : src.entryAt? [k] = some new := by rw [entryAt?_singleton, hnew]
  refine ⟨?_, ?_⟩
  · rintro rfl
    exact h ⟨[k], new, hk, hentry, .inl rfl⟩
  · obtain ⟨value, attrs⟩ := new
    cases value with
    | scalar v => exact absurd ⟨[k], _, hk, hentry, .inr rfl⟩ h
    | subsection s => exact ⟨s, rfl, fun hs => h (.cons (subsection?_of_get? hnew) hs)⟩

/-- A merge that succeeds changes nothing at a path that it does not reach. -/
theorem entryAt?_of_not_reaches (hsrc : src.Everywhere KeysDistinct)
    (h : dst.merge src = .ok out) (hq : ¬ Reaches src q) : out.entryAt? q = dst.entryAt? q := by
  induction q generalizing dst src out with
  | nil => rfl
  | cons k q ih =>
    obtain ⟨-, -, hget⟩ := merge_spec hsrc.holds h
    have hat := hget k
    cases hnew : src.entries.get? k with
    | none =>
      rw [hnew] at hat
      exact entryAt?_congr hat q
    | some new =>
      -- the source enters the first name without reaching the key, so it has a section there
      obtain ⟨hne, s, hs, hbelow⟩ := exists_subsection?_of_not_reaches hq hnew
      obtain ⟨value, attrs⟩ := new
      obtain rfl : value = .subsection s := hs
      have hnone : s.entryAt? q = none := by
        rw [Option.eq_none_iff_forall_ne_some]
        exact fun e he => hbelow ⟨q, e, List.prefix_rfl, he, .inl rfl⟩
      rw [hnew] at hat
      obtain ⟨⟨value, attrs'⟩, habsorbed, hout⟩ := hat
      rw [entryAt?_cons out k hne, entryAt?_cons dst k hne, subsection?, subsection?, get?, get?,
        hout]
      generalize hold : dst.entries.get? k = old at habsorbed
      cases habsorbed with
      | copied => exact hnone
      | @overwritten old _ hshapes =>
        obtain ⟨value, attrs'⟩ := old
        cases value with
        | scalar v => exact hnone
        | subsection d => cases hshapes
      | @descended d _ m _ _ hvalue merged =>
        cases hvalue
        exact ih (hsrc.of_get? hnew rfl) merged hbelow

/-- Restoring attributes along a path changes no entry that is not on the path. -/
theorem entryAt?_restoreAlong (hq : ¬ q <+: path) :
    (restoreAlong dst path s).entryAt? q = s.entryAt? q := by
  induction path generalizing dst s q with
  | nil => rfl
  | cons name path ih =>
    rw [restoreAlong]
    split
    · rename_i d attrs sub attrs' hd hs
      cases q with
      | nil => rfl
      | cons x q =>
        by_cases hx : x = name
        · subst hx
          rw [List.cons_prefix_cons] at hq
          replace hq : ¬ q <+: path := fun h => hq ⟨rfl, h⟩
          have hne : q ≠ [] := by
            rintro rfl
            exact hq List.nil_prefix
          -- the path leaves `q` further down, and the section there is restored in turn
          have hwrites := Writes.of_insert s x ⟨.subsection (restoreAlong d path sub), attrs⟩
          rw [entryAt?_cons _ x hne, entryAt?_cons s x hne,
            subsection?_of_get? hwrites.get?_self, subsection?_of_get? hs]
          exact ih hq
        · exact entryAt?_congr ((Writes.of_insert s name _).get?_of_ne hx) q
    · rfl

/-- The sections around the conflict are in the source that is cut off. -/
theorem StopsAt.reaches_enclosing (hsrc : src.Everywhere KeysDistinct)
    (h : StopsAt dst src path k error out) (hq : q ≠ []) (hpath : q <+: path) :
    Reaches (cutBefore k path src) q := by
  induction h generalizing q with
  | here => exact absurd (List.prefix_nil.mp hpath) hq
  | @inside dst src d s mid sub name k path attrs attrs' error before after entries merged found
      unprotected _ ih =>
    have hs := hsrc.of_get? (get?_of_toList_eq hsrc.holds entries) rfl
    have hcut := keysDistinct_cutBefore hsrc k (name :: path)
    have hget : (cutBefore k (name :: path) src).entries.get? name =
        some ⟨.subsection (cutBefore k path s), attrs'⟩ :=
      get?_of_toList_eq hcut.holds (congrArg (·.entries.toList) (cutBefore_cons hsrc.holds entries))
    obtain ⟨x, q, rfl⟩ := List.exists_cons_of_ne_nil hq
    obtain ⟨rfl, hbelow⟩ := List.cons_prefix_cons.mp hpath
    by_cases hne : q = []
    · subst hne
      exact ⟨[x], _, List.prefix_rfl, by rw [entryAt?_singleton, hget], .inl rfl⟩
    · exact .cons (subsection?_of_get? hget) (ih hs hne hbelow)

/-! ## Merges that fail -/

/-- A merge fails with the error of its conflict. -/
theorem merge_eq_error_iff :
    dst.merge src = .error error ↔ (dst.mergeInto src).conflict = some error := by
  rw [merge]
  cases (dst.mergeInto src).conflict <;> simp

/-- A key that the source of a merge has is not protected in the destination, if the merge
succeeds. -/
theorem isProtected_entryAt?_of_merge (hsrc : src.Everywhere KeysDistinct)
    (h : dst.merge src = .ok out) (hnew : src.entryAt? q = some new)
    (hold : dst.entryAt? q = some old) : old.attrs.isProtected = false := by
  rcases List.eq_nil_or_concat' q with rfl | ⟨p, k, rfl⟩
  · cases hold
  · rw [entryAt?_concat] at hold hnew
    obtain ⟨d, hd, hold⟩ := Option.bind_eq_some_iff.mp hold
    obtain ⟨s, hs, hnew⟩ := Option.bind_eq_some_iff.mp hnew
    obtain ⟨o, -, hkeys, hmerge⟩ := merge_sectionAt? hsrc h hd hs
    have hfree := isProtected_of_merge hkeys hmerge (OrderedMap.mem_keys_of_get? hnew)
    rwa [isProtected_eq, hold] at hfree

/-- The merge of `src` into `dst` has stopped at the key `k` of the section at `path`, with the
given error, and has left `out`. -/
structure Interrupted (dst src : Section) (path : List String) (k : String) (error : SectionError)
    (out : Section) : Prop where
  /-- The source has a key that is protected in the destination, and there it stays as it is. -/
  collides : ∃ old new, dst.entryAt? (path ++ [k]) = some old ∧
    src.entryAt? (path ++ [k]) = some new ∧ old.attrs.isProtected = true ∧
      error = refusal k old.value new.value ∧ out.entryAt? (path ++ [k]) = some old
  /-- In document order, the keys before it are those of the source cut off there. -/
  before : ∃ rest, src.keyPaths = (cutBefore k path src).keyPaths ++ (path ++ [k]) :: rest
  /-- None of them is protected in the destination. -/
  unprotected : ∀ q ∈ (cutBefore k path src).keyPaths, ∀ old, dst.entryAt? q = some old →
    old.attrs.isProtected = false
  /-- They have been merged, and the sections around the conflict have got their attributes back. -/
  merged : ∃ whole, dst.merge (cutBefore k path src) = .ok whole ∧ out = restoreAlong dst path whole
  enclosing : ∀ q, q ≠ [] → q <+: path → out.lookupAttrs? q = dst.lookupAttrs? q
  /-- Whatever the merge has not reached is as it was. -/
  notReached : ∀ q, ¬ Reaches (cutBefore k path src) q → out.entryAt? q = dst.entryAt? q

/-- Where a merge stops, everything that is said of an interrupted merge holds. -/
theorem StopsAt.interrupted (hsrc : src.Everywhere KeysDistinct)
    (h : StopsAt dst src path k error out) : Interrupted dst src path k error out := by
  have hcut := keysDistinct_cutBefore hsrc k path
  obtain ⟨whole, hwhole, hout⟩ := h.merge_cutBefore hsrc
  refine ⟨h.collides hsrc, h.keyPaths_eq hsrc, fun q hq old hold => ?_, ⟨whole, hwhole, hout⟩,
    fun q => h.lookupAttrs?_enclosing, fun q hq => ?_⟩
  · obtain ⟨new, hnew⟩ := exists_entryAt?_of_mem_keyPaths hcut hq
    exact isProtected_entryAt?_of_merge hcut hwhole hnew hold
  · by_cases hne : q = []
    · rw [hne]
      rfl
    · have hpath : ¬ q <+: path := fun hpath => hq (h.reaches_enclosing hsrc hne hpath)
      rw [hout, entryAt?_restoreAlong hpath, entryAt?_of_not_reaches hcut hwhole hq]

/-- A merge that fails has stopped at the first key of the source, in document order, that is
protected in the destination. Up to there it has done what a merge does. -/
theorem merge_stops_at_first_collision (hsrc : src.Everywhere KeysDistinct)
    (h : dst.merge src = .error error) :
    ∃ path k, Interrupted dst src path k error (dst.mergeInto src).result := by
  obtain ⟨path, k, hstops⟩ := exists_stopsAt hsrc (merge_eq_error_iff.mp h)
  exact ⟨path, k, hstops.interrupted hsrc⟩

/-- A tree that collides with `base` at `a:y`, between keys that do not. -/
def blocked : Section :=
  ⟨none, ⟨[
    ("c", ⟨.scalar (.text "3"), {}⟩),
    ("a", ⟨.subsection ⟨some "a", ⟨[
      ("x", ⟨.scalar (.text "5"), {}⟩),
      ("y", ⟨.scalar (.text "6"), {}⟩),
      ("z", ⟨.scalar (.text "7"), {}⟩)]⟩⟩, {}⟩),
    ("b", ⟨.scalar (.text "8"), {}⟩)]⟩⟩

/-- What is left of `base`: `c` and `a:x` have been merged. -/
def halfMerged : Section :=
  ⟨none, ⟨[
    ("a", ⟨.subsection ⟨some "a", ⟨[
      ("x", ⟨.scalar (.text "5"), {}⟩),
      ("y", ⟨.scalar (.text "2"), {}⟩)]⟩⟩, { flags := { writable := true } }⟩),
    ("b", ⟨.subsection (.named "b"), { flags := { temporary := true } }⟩),
    ("c", ⟨.scalar (.text "3"), {}⟩)]⟩⟩

/-- The merge stops at `a:y`, with the keys before it merged and those after it untouched. -/
theorem merge_stops_at_first_collision_base :
    base.merge blocked = .error (.keyNotWritable "y") ∧
      ∃ path k, Interrupted base blocked path k (.keyNotWritable "y") halfMerged := by
  have hkeys : blocked.Everywhere KeysDistinct := by
    refine .of_toList (by decide) ?_
    rintro _ (_ | ⟨_, _ | ⟨_, _ | ⟨_, ⟨⟩⟩⟩⟩) sub ⟨⟩
    refine .of_toList (by decide) ?_
    rintro _ (_ | ⟨_, _ | ⟨_, _ | ⟨_, ⟨⟩⟩⟩⟩) sub ⟨⟩
  exact ⟨rfl, merge_stops_at_first_collision hkeys rfl⟩

end LayeredConfig.Section
