import LayeredConfig.Proofs.Section.Evaluation
import LayeredConfig.Proofs.Text.SplitOn
import Mathlib.Data.List.Perm.Subperm

/-!
# What an error in a reference says

Evaluation names the key whose template holds the reference, where that reference leads, and what is
wrong there. `Justified` says that this is so in the tree. A template comes to be evaluated along a
`Trail` of references, whose keys are remembered by their names; a cycle is reported when a name
comes up again. The names on a trail are distinct and each is that of a template key, so that the
fuel of `referenceText` is never used up and the only cycles reported are those of names. A name
is not always a key path: a key with a colon in it has the name of a key in a nested section. Where
no key has a colon, the key that is reported reaches itself.
-/

namespace LayeredConfig

/-! ## Names of key paths -/

/-- The name of a path, taken apart at its colons, gives the keys back if none of them has one. -/
theorem splitOn_pathName {p : List String} (hp : p ≠ []) (hkeys : ∀ k ∈ p, ':' ∉ k.toList) :
    Text.splitOn ':' (pathName p).toList = p.map String.toList :=
  Text.splitOn_intercalate ':' hp hkeys

/-- Paths are told apart by their names if no key in them has a colon. -/
theorem pathName_injective {p q : List String} (hp : p ≠ []) (hq : q ≠ [])
    (hpkeys : ∀ k ∈ p, ':' ∉ k.toList) (hqkeys : ∀ k ∈ q, ':' ∉ k.toList)
    (h : pathName p = pathName q) : p = q := by
  have hmap : p.map String.toList = q.map String.toList := by
    rw [← splitOn_pathName hp hpkeys, ← splitOn_pathName hq hqkeys, h]
  exact List.map_injective_iff.mpr (fun _ _ => String.toList_injective) hmap

/-! ## Where an evaluation fails -/

/-- When pieces have no text, it is one of their references that has none. -/
theorem Piece.exists_of_joinTexts_eq_error {ε : Type} {resolve : Reference → Except ε String}
    {pieces : List Piece} {e : ε} (h : joinTexts resolve pieces = .error e) :
    ∃ ref, .reference ref ∈ pieces ∧ resolve ref = .error e := by
  rw [joinTexts, Except.map_eq_error_iff] at h
  induction pieces with
  | nil => cases h
  | cons piece pieces ih =>
    rw [List.mapM_cons, Except.bind_eq_error_iff] at h
    rcases h with hpiece | ⟨y, -, h⟩
    · cases piece with
      | literal s => cases hpiece
      | reference ref => exact ⟨ref, List.mem_cons_self, hpiece⟩
    · rcases Except.bind_eq_error_iff.mp h with hpieces | ⟨ys, -, hcons⟩
      · obtain ⟨ref, hmem, href⟩ := ih hpieces
        exact ⟨ref, List.mem_cons_of_mem piece hmem, href⟩
      · cases hcons

namespace Section

variable {root s sub : Section} {e : ReferenceError} {path chain p q : List String} {k : String}
  {n : Nat} {ref : Reference} {t : Template}

/-- Entries fail to be evaluated with the error of one of them. -/
theorem exists_of_evaluateEntries_eq_error {entries : List (String × Entry)}
    (h : evaluateEntries root path entries = .error e) :
    ∃ key entry, (key, entry) ∈ entries ∧
      evaluateValue root (path ++ [key]) entry.value = .error e := by
  induction entries with
  | nil => cases h
  | cons entry entries ih =>
    obtain ⟨key, value, attrs⟩ := entry
    rw [evaluateEntries, Except.bind_eq_error_iff] at h
    rcases h with hvalue | ⟨v, -, h⟩
    · exact ⟨key, ⟨value, attrs⟩, List.mem_cons_self, hvalue⟩
    · rcases Except.bind_eq_error_iff.mp h with hentries | ⟨rest, -, hcons⟩
      · obtain ⟨key', entry', hmem, hentry'⟩ := ih hentries
        exact ⟨key', entry', List.mem_cons_of_mem _ hmem, hentry'⟩
      · cases hcons

/-- A section fails to be evaluated if its entries do. -/
theorem evaluateIn_eq_error_iff :
    evaluateIn root path s = .error e ↔ evaluateEntries root path s.entries.toList = .error e := by
  obtain ⟨name, ⟨entries⟩⟩ := s
  exact Except.map_eq_error_iff

/-- When the evaluation of a section fails, it is a template in it that has no text. -/
theorem exists_of_evaluateIn_eq_error (hkeys : s.Everywhere KeysDistinct)
    (h : evaluateIn root path s = .error e) :
    ∃ p t, s.lookup? p = some (.scalar (.template t)) ∧
      root.templateText (path ++ p) t = .error e := by
  induction s using subsection_induction generalizing path with
  | step s ih =>
    have hentries := evaluateIn_eq_error_iff.mp h
    obtain ⟨key, ⟨value, attrs⟩, hmem, hvalue⟩ := exists_of_evaluateEntries_eq_error hentries
    have hget : s.entries.get? key = some ⟨value, attrs⟩ :=
      OrderedMap.get?_of_mem hkeys.holds hmem
    cases value with
    | scalar scalar =>
      cases scalar with
      | text x => cases hvalue
      | template t =>
        rw [evaluateValue, Except.map_eq_error_iff] at hvalue
        exact ⟨[key], t, by rw [lookup?_singleton, hget]; rfl, hvalue⟩
    | subsection sub =>
      rw [evaluateValue, Except.map_eq_error_iff] at hvalue
      have hsub := subsection?_of_get? hget
      -- the failure is inside a section, whose templates have longer paths
      obtain ⟨p, t, ht, htext⟩ := ih key sub hsub (hkeys.down hsub) hvalue
      have hp : p ≠ [] := by
        rintro rfl
        cases ht
      refine ⟨key :: p, t, ?_, ?_⟩
      · rw [lookup?_cons s key hp, hsub, Option.bind_some, ht]
      · rwa [List.append_cons]

section capture

variable {key : List String}

mutual

/-- A reference that cannot be replaced is reported for the key that it is evaluated for. -/
theorem exists_of_captureFragment_eq_error :
    ∀ fragment, captureFragment root key fragment = .error e →
      ∃ fault ref, e = root.referenceError fault [pathName key] key ref
  | .literal _, h => by
    rw [captureFragment] at h
    cases h
  | .reference ref, h => by
    rw [captureFragment] at h
    split at h <;> cases h
    · exact ⟨_, ref, rfl⟩
    · exact ⟨_, ref, rfl⟩
  | .nested fragments, h => by
    rw [captureFragment, Except.map_eq_error_iff] at h
    exact exists_of_captureFragments_eq_error fragments h

/-- An error in capturing fragments is that of a reference in the value of the key. -/
theorem exists_of_captureFragments_eq_error :
    ∀ fragments, captureFragments root key fragments = .error e →
      ∃ fault ref, e = root.referenceError fault [pathName key] key ref
  | [], h => by
    rw [captureFragments] at h
    cases h
  | fragment :: fragments, h => by
    rw [captureFragments] at h
    rcases Except.bind_eq_error_iff.mp h with hfragment | ⟨first, -, h⟩
    · exact exists_of_captureFragment_eq_error fragment hfragment
    · rcases Except.bind_eq_error_iff.mp h with hfragments | ⟨others, -, h⟩
      · exact exists_of_captureFragments_eq_error fragments hfragments
      · cases h

end

/-- An error in an immediate value is that of a reference in it, with no key followed but its
own. -/
theorem exists_of_evaluateImmediate_eq_error {t : Template}
    (h : root.evaluateImmediate key t = .error e) :
    ∃ fault ref, e = root.referenceError fault [pathName key] key ref :=
  exists_of_captureFragments_eq_error t.fragments (Except.map_eq_error_iff.mp h)

end capture

/-! ## Trails of references -/

/-- The template keys of a section are those of its entries. -/
theorem templateKeys_eq (path : List String) (s : Section) :
    templateKeys path s = templateKeysOfEntries path s.entries.toList := by
  obtain ⟨name, ⟨entries⟩⟩ := s
  rfl

/-- The template keys of a value are among those of the entries that hold it. -/
theorem mem_templateKeysOfEntries {entries : List (String × Entry)} {entry : Entry}
    (hmem : (k, entry) ∈ entries) (h : q ∈ templateKeysOfValue (path ++ [k]) entry.value) :
    q ∈ templateKeysOfEntries path entries := by
  induction entries with
  | nil => cases hmem
  | cons entry' entries ih =>
    obtain ⟨key, value, attrs⟩ := entry'
    rw [templateKeysOfEntries, List.mem_append]
    rcases List.mem_cons.mp hmem with heq | hmem
    · cases heq
      exact Or.inl h
    · exact Or.inr (ih hmem)

/-- The path of a template is among the template keys. -/
theorem mem_templateKeys (h : s.lookup? p = some (.scalar (.template t))) :
    path ++ p ∈ templateKeys path s := by
  induction p generalizing s path with
  | nil => cases h
  | cons k p ih =>
    rw [templateKeys_eq]
    by_cases hp : p = []
    · subst hp
      rw [lookup?_singleton] at h
      obtain ⟨entry, hget, hvalue⟩ := Option.map_eq_some_iff.mp h
      refine mem_templateKeysOfEntries (OrderedMap.mem_of_get? hget) ?_
      rw [hvalue, templateKeysOfValue]
      exact List.mem_singleton_self _
    · rw [lookup?_cons s k hp] at h
      obtain ⟨sub, hsub, h⟩ := Option.bind_eq_some_iff.mp h
      obtain ⟨attrs, hget⟩ := subsection?_eq_some_iff.mp hsub
      refine mem_templateKeysOfEntries (OrderedMap.mem_of_get? hget) ?_
      rw [show path ++ k :: p = (path ++ [k]) ++ p from List.append_cons path k p]
      -- the template keys of the section are prefixed with its own path
      exact ih h

/-- Distinct names of templates are no more than there are templates. -/
theorem length_le_of_distinct_names (hdistinct : chain.Nodup)
    (hnames : ∀ name ∈ chain, ∃ p ∈ root.templateKeys [], pathName p = name) :
    chain.length ≤ (root.templateKeys []).length := by
  have hsubset : chain ⊆ (root.templateKeys []).map pathName :=
    fun name hname => List.mem_map.mpr (hnames name hname)
  have hlength := (hdistinct.subperm hsubset).length_le
  rwa [List.length_map] at hlength

/-- How the template of a key comes to be evaluated: it is followed to from other template keys,
whose names are `chain` and are all different. -/
inductive Trail (root : Section) : (chain key : List String) → Prop
  | start {p : List String} {t : Template}
      (template : root.lookup? p = some (.scalar (.template t))) : Trail root [] p
  | follow {chain p q : List String} (trail : Trail root chain p) (fresh : pathName p ∉ chain)
      (refers : root.Refers p q) : Trail root (chain ++ [pathName p]) q

/-- The names on a trail are distinct. -/
theorem Trail.nodup (h : Trail root chain p) : chain.Nodup := by
  induction h with
  | start => exact List.nodup_nil
  | follow _ fresh _ ih => exact ih.append (List.nodup_singleton _) (by simpa using fresh)

/-- Every name on a trail is that of a key from which references lead to its end. -/
theorem Trail.exists_transGen {name : String} (h : Trail root chain p) (hname : name ∈ chain) :
    ∃ q, pathName q = name ∧ Relation.TransGen root.Refers q p := by
  induction h with
  | start => cases hname
  | @follow chain p q _ _ refers ih =>
    rcases List.mem_append.mp hname with hmem | hlast
    · obtain ⟨q', hq', hreach⟩ := ih hmem
      exact ⟨q', hq', hreach.tail refers⟩
    · exact ⟨p, (List.mem_singleton.mp hlast).symm, .single refers⟩

/-- A trail is never longer than the number of templates. -/
theorem Trail.length_le (h : Trail root chain p) :
    chain.length ≤ (root.templateKeys []).length := by
  refine length_le_of_distinct_names h.nodup fun name hname => ?_
  obtain ⟨q, hq, hreach⟩ := h.exists_transGen hname
  obtain ⟨_, ⟨t, _, _, ht, _⟩, _⟩ := Relation.TransGen.head'_iff.mp hreach
  exact ⟨q, mem_templateKeys ht, hq⟩

/-! ## Errors -/

/-- What an error says is so: its key holds a template with a reference that leads to its target,
and there is no value there, or a section, or references lead from a key of the same name back to
the key. -/
structure Justified (root : Section) (e : ReferenceError) : Prop where
  reference : ∃ t ref, root.lookup? e.key = some (.scalar (.template t)) ∧
    .reference ref ∈ t.pieces ∧ ref.resolve e.key = e.target
  unresolved : e.fault = .unresolved → root.lookup? e.target = none
  sectionReference : e.fault = .sectionReference → ∃ s, root.lookup? e.target = some (.subsection s)
  cycle : e.fault = .cycle →
    ∃ p, pathName p = pathName e.key ∧ Relation.TransGen root.Refers p e.key

/-- Following a reference from a key at the end of a trail. -/
theorem justified_of_referenceText (htrail : Trail root chain p)
    (ht : root.lookup? p = some (.scalar (.template t))) (href : .reference ref ∈ t.pieces)
    (hfuel : (root.templateKeys []).length < n + chain.length)
    (h : root.referenceText n chain p ref = .error e) : Justified root e := by
  induction n generalizing chain p t ref with
  | zero =>
    -- without fuel the trail would be longer than there are templates
    have hlength := htrail.length_le
    omega
  | succ n ih =>
    have hreference : ∃ t ref', root.lookup? p = some (.scalar (.template t)) ∧
        .reference ref' ∈ t.pieces ∧ ref'.resolve p = ref.resolve p := ⟨t, ref, ht, href, rfl⟩
    simp only [referenceText] at h
    split at h
    · -- the name of the key is on the trail already
      next hcontains =>
      cases h
      refine ⟨hreference, (fun h => by cases h), (fun h => by cases h), fun _ => ?_⟩
      exact htrail.exists_transGen (List.contains_iff_mem.mp hcontains)
    · next hcontains =>
      split at h
      · next hlookup =>
        cases h
        exact ⟨hreference, fun _ => hlookup, (fun h => by cases h), (fun h => by cases h)⟩
      · next s hlookup =>
        cases h
        exact ⟨hreference, (fun h => by cases h), fun _ => ⟨s, hlookup⟩, (fun h => by cases h)⟩
      · cases h
      · -- another template, whose trail is one key longer
        next t' hlookup =>
        obtain ⟨ref', href', herror⟩ := Piece.exists_of_joinTexts_eq_error h
        have hfresh : pathName p ∉ chain := fun hmem => hcontains (List.contains_iff_mem.mpr hmem)
        have hfollow := htrail.follow hfresh ⟨t, ref, t', ht, href, rfl, hlookup⟩
        -- the trail has grown by one name and the fuel has shrunk by one
        refine ih hfollow hlookup href' ?_ herror
        rw [List.length_append, List.length_singleton]
        omega

/-- What an error in evaluating a tree says is so. -/
theorem justified_of_evaluateAll (hkeys : root.Everywhere KeysDistinct)
    (h : root.evaluateAll = .error e) : Justified root e := by
  obtain ⟨p, t, ht, htext⟩ := exists_of_evaluateIn_eq_error hkeys h
  obtain ⟨ref, href, herror⟩ := Piece.exists_of_joinTexts_eq_error htext
  exact justified_of_referenceText (.start ht) ht href (by simp) herror

/-- No key of a section has a colon in its name. -/
def Colonless (s : Section) : Prop :=
  ∀ k ∈ s.entries.keys, ':' ∉ k.toList

/-- In a tree without colons, no name on the path of a value has one. -/
theorem colonless_of_lookup? {v : Value} (hs : s.Everywhere Colonless) (h : s.lookup? p = some v) :
    p ≠ [] ∧ ∀ k ∈ p, ':' ∉ k.toList := by
  induction p generalizing s with
  | nil => cases h
  | cons k p ih =>
    refine ⟨List.cons_ne_nil k p, List.forall_mem_cons.mpr ?_⟩
    by_cases hp : p = []
    · subst hp
      rw [lookup?_singleton] at h
      obtain ⟨entry, hget, -⟩ := Option.map_eq_some_iff.mp h
      exact ⟨hs.holds k (OrderedMap.mem_keys_of_get? hget), nofun⟩
    · rw [lookup?_cons s k hp] at h
      obtain ⟨sub, hsub, h⟩ := Option.bind_eq_some_iff.mp h
      obtain ⟨attrs, hget⟩ := subsection?_eq_some_iff.mp hsub
      exact ⟨hs.holds k (OrderedMap.mem_keys_of_get? hget), (ih (hs.down hsub) h).2⟩

/-- Evaluation fails only for the reason that it gives. A cycle is one of names, and where no key
has a colon it is one of keys. -/
theorem evaluateAll_error_justified (hkeys : root.Everywhere KeysDistinct)
    (h : root.evaluateAll = .error e) :
    Justified root e ∧ (root.Everywhere Colonless → e.fault = .cycle →
      Relation.TransGen root.Refers e.key e.key) := by
  have hjustified := justified_of_evaluateAll hkeys h
  refine ⟨hjustified, fun hcolonless hcycle => ?_⟩
  obtain ⟨p, hname, hreach⟩ := hjustified.cycle hcycle
  -- both ends hold templates, so neither path has a colon in it
  obtain ⟨-, ⟨t, -, -, ht, -⟩, -⟩ := Relation.TransGen.head'_iff.mp hreach
  obtain ⟨t', -, ht', -, -⟩ := hjustified.reference
  obtain ⟨hp, hpkeys⟩ := colonless_of_lookup? hcolonless ht
  obtain ⟨hq, hqkeys⟩ := colonless_of_lookup? hcolonless ht'
  obtain rfl := pathName_injective hp hq hpkeys hqkeys hname
  exact hreach

/-- A tree in which `a` leads into a cycle that it is not part of. -/
def looping : Section :=
  ⟨none, ⟨[
    ("a", ⟨.scalar (.template ⟨[.reference ⟨false, ["b", "c"]⟩]⟩), {}⟩),
    ("b", ⟨.subsection ⟨some "b", ⟨[
      ("c", ⟨.scalar (.template ⟨[.literal "<", .nested [.reference ⟨false, ["d"]⟩]]⟩), {}⟩),
      ("d", ⟨.scalar (.template ⟨[.reference ⟨true, ["b", "c"]⟩]⟩), {}⟩)]⟩⟩, {}⟩)]⟩⟩

/-- A property of the looping tree and of its section holds everywhere in it. -/
theorem looping_everywhere {P : Section → Prop} (hroot : P looping)
    (hb : ∀ b, looping.subsection? "b" = some b → P b) : looping.Everywhere P := by
  refine .of_toList hroot ?_
  rintro _ (_ | ⟨_, _ | ⟨_, ⟨⟩⟩⟩) sub ⟨⟩
  refine .of_toList (hb _ rfl) ?_
  rintro _ (_ | ⟨_, _ | ⟨_, ⟨⟩⟩⟩) sub ⟨⟩

/-- The error names a key of the cycle, although the key that is evaluated first is not on it. -/
theorem evaluateAll_error_justified_looping :
    ∃ e, looping.evaluateAll = .error e ∧ e.fault = .cycle ∧ e.key = ["b", "c"] ∧
      Justified looping e ∧ Relation.TransGen looping.Refers e.key e.key := by
  have hkeys : looping.Everywhere KeysDistinct :=
    looping_everywhere (by decide) (by rintro _ ⟨⟩; decide)
  have hcolonless : looping.Everywhere Colonless :=
    looping_everywhere (by unfold Colonless; decide) (by rintro _ ⟨⟩; unfold Colonless; decide)
  obtain ⟨hjustified, hcycle⟩ := evaluateAll_error_justified hkeys (e := {
    fault := .cycle, key := ["b", "c"], history := {}, chain := ["a", "b:c", "b:d", "b:c"],
    target := ["b", "d"] }) rfl
  exact ⟨_, rfl, rfl, rfl, hjustified, hcycle hcolonless rfl⟩

/-- A tree in which the key `a:b` leads to the key `b` of the section `a`, which has the same name
and leads to a text. -/
def colliding : Section :=
  ⟨none, ⟨[
    ("c", ⟨.scalar (.text "x"), {}⟩),
    ("a:b", ⟨.scalar (.template ⟨[.reference ⟨false, ["a", "b"]⟩]⟩), {}⟩),
    ("a", ⟨.subsection ⟨some "a", ⟨[
      ("b", ⟨.scalar (.template ⟨[.reference ⟨true, ["c"]⟩]⟩), {}⟩)]⟩⟩, {}⟩)]⟩⟩

/-- Two keys of one name pass for a cycle, although the key that is reported refers to no template
at all. -/
theorem colliding_reports_cycle :
    ∃ e, colliding.evaluateAll = .error e ∧ e.fault = .cycle ∧
      ¬ Relation.TransGen colliding.Refers e.key e.key := by
  refine ⟨{ fault := .cycle, key := ["a", "b"], history := {}, chain := ["a:b", "a:b"],
            target := ["c"] }, rfl, rfl, fun hcycle => ?_⟩
  obtain ⟨q, ⟨t, ref, t', ht, hmem, rfl, ht'⟩, -⟩ := Relation.TransGen.head'_iff.mp hcycle
  cases ht
  obtain rfl := Piece.reference.inj (List.mem_singleton.mp hmem)
  cases ht'

end Section

end LayeredConfig
