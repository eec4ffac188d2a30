import LayeredConfig.Proofs.Session.Step
import Mathlib.Data.List.Infix

/-!
# Protection is permanent

A key that is protected together with the sections around it stays as it is until the end of its
document. `Keeps s s'` is what carries this: every protected scalar of `s` is in `s'` unchanged, and
every protected section is there with the same name, with the keys it had, and again kept. Each
operation on one key keeps a section, since it refuses a protected key or merely enters a section
again, and a merge is a sequence of such operations. What one item keeps, a run of items keeps.
-/

namespace LayeredConfig

namespace Section

variable {s s' s'' dst src out : Section} {key k : String} {e old : Entry} {p path : List String}

/-! ## Keeping what is protected -/

/-- Nothing that is protected in `s`, at any depth below protected sections, is lost or changed in
`s'`. -/
inductive Keeps : Section → Section → Prop
  | intro {s s' : Section} (name : s'.name = s.name)
      (keys : ∀ k ∈ s.entries.keys, k ∈ s'.entries.keys)
      (scalar : ∀ k v attrs, s.entries.get? k = some ⟨.scalar v, attrs⟩ →
        attrs.isProtected = true → s'.entries.get? k = some ⟨.scalar v, attrs⟩)
      (subsection : ∀ k sub attrs, s.entries.get? k = some ⟨.subsection sub, attrs⟩ →
        attrs.isProtected = true → ∃ sub' attrs',
          s'.entries.get? k = some ⟨.subsection sub', attrs'⟩ ∧ attrs'.isProtected = true)
      (below : ∀ k sub attrs sub', s.entries.get? k = some ⟨.subsection sub, attrs⟩ →
        attrs.isProtected = true → s'.subsection? k = some sub' → Keeps sub sub') : Keeps s s'

/-- The same for one entry: the entry `e` stands where the protected entry `old` stood. -/
def Kept (old e : Entry) : Prop :=
  match old.value with
  | .scalar _ => e = old
  | .subsection sub =>
    e.attrs.isProtected = true ∧ ∃ sub', e.value = .subsection sub' ∧ Keeps sub sub'

namespace Keeps

/-- The name of a section is kept. -/
theorem name (h : Keeps s s') : s'.name = s.name := by
  cases h with | intro name _ _ _ _ => exact name

/-- All keys are kept. -/
theorem keys (h : Keeps s s') : ∀ k ∈ s.entries.keys, k ∈ s'.entries.keys := by
  cases h with | intro _ keys _ _ _ => exact keys

/-- A protected entry is kept at its key. -/
theorem get? (h : Keeps s s') (hold : s.entries.get? k = some old)
    (hprotected : old.attrs.isProtected = true) :
    ∃ e, s'.entries.get? k = some e ∧ Kept old e := by
  cases h with
  | intro _ _ scalar subsection below =>
    obtain ⟨value, attrs⟩ := old
    cases value with
    | scalar v => exact ⟨_, scalar k v attrs hold hprotected, rfl⟩
    | subsection sub =>
      obtain ⟨sub', attrs', hget, hprotected'⟩ := subsection k sub attrs hold hprotected
      exact ⟨_, hget, hprotected', sub', rfl,
        below k sub attrs sub' hold hprotected (subsection?_of_get? hget)⟩

/-- A section is kept if its name, its keys and each of its protected entries are. -/
theorem of_get? (hname : s'.name = s.name) (hkeys : ∀ k ∈ s.entries.keys, k ∈ s'.entries.keys)
    (hget : ∀ k old, s.entries.get? k = some old → old.attrs.isProtected = true →
      ∃ e, s'.entries.get? k = some e ∧ Kept old e) : Keeps s s' := by
  refine .intro hname hkeys ?_ ?_ ?_
  · intro k v attrs hold hprotected
    obtain ⟨e, he, rfl⟩ := hget k _ hold hprotected
    exact he
  · intro k sub attrs hold hprotected
    obtain ⟨⟨value, attrs'⟩, he, hprotected', sub', rfl, -⟩ := hget k _ hold hprotected
    exact ⟨sub', attrs', he, hprotected'⟩
  · intro k sub attrs sub' hold hprotected hsub'
    obtain ⟨⟨value, attrs'⟩, he, -, sub'', rfl, hkeeps⟩ := hget k _ hold hprotected
    rw [subsection?_of_get? he] at hsub'
    cases hsub'
    exact hkeeps

/-- A section keeps itself. -/
theorem refl (s : Section) : Keeps s s := by
  induction s using subsection_induction with
  | step s ih =>
    refine of_get? rfl (fun k hk => hk) fun k old hold hprotected => ⟨old, hold, ?_⟩
    obtain ⟨value, attrs⟩ := old
    cases value with
    | scalar v => rfl
    | subsection sub => exact ⟨hprotected, sub, rfl, ih k sub (subsection?_of_get? hold)⟩

/-- What is kept by one change and then by another is kept by both together. -/
theorem trans (h : Keeps s s') (h' : Keeps s' s'') : Keeps s s'' := by
  induction h generalizing s'' with
  | @intro s s' name keys scalar subsection below ih =>
    -- A protected section is still a protected section after the first change, so that the second
    -- one keeps it again.
    refine of_get? (h'.name.trans name) (fun k hk => h'.keys k (keys k hk)) ?_
    intro k old hold hprotected
    obtain ⟨value, attrs⟩ := old
    cases value with
    | scalar v => exact h'.get? (scalar k v attrs hold hprotected) hprotected
    | subsection sub =>
      obtain ⟨sub', attrs', hget, hprotected'⟩ := subsection k sub attrs hold hprotected
      obtain ⟨e, he, hprotected'', sub'', hsub'', hkeeps⟩ := h'.get? hget hprotected'
      exact ⟨e, he, hprotected'', sub'', hsub'',
        ih k sub attrs sub' hold hprotected (subsection?_of_get? hget) hkeeps⟩

/-! ## Operations on one key -/

/-- A write keeps a section if it keeps the entry it replaces, should that be protected. -/
theorem of_writes (h : Writes s key e s')
    (hkey : ∀ old, s.entries.get? key = some old → old.attrs.isProtected = true → Kept old e) :
    Keeps s s' := by
  refine of_get? h.name (fun k hk => h.mem_keys_iff.mpr (Or.inr hk)) ?_
  intro k old hold hprotected
  by_cases hk : k = key
  · subst hk
    exact ⟨e, h.get?_self, hkey old hold hprotected⟩
  · refine ⟨old, by rw [h.get?_of_ne hk, hold], ?_⟩
    obtain ⟨e', he', hkept⟩ := (refl s).get? hold hprotected
    rw [hold] at he'
    cases he'
    exact hkept

/-- An ordinary write never meets a protected entry. -/
theorem of_overwritten {value : Value} {flags : Flags} {origin : Origin}
    (h : Writes s key e s') (he : Overwritten value flags origin (s.entries.get? key) e) :
    Keeps s s' := by
  refine of_writes h fun old hold hprotected => ?_
  have hfree := he.1
  simp [hold, hprotected] at hfree

/-- A header keeps the section around it, whether it enters a section or makes one. -/
theorem of_entered {origin : Origin} (h : Writes s key e s')
    (he : Draft.Entered key origin (s.entries.get? key) e) : Keeps s s' := by
  generalize hold : s.entries.get? key = old at he
  cases he with
  | @again sub attrs notFinal =>
    -- this bypasses protection, but it leaves the section in place and protected
    refine of_writes h fun old' hold' hprotected => ?_
    rw [hold] at hold'
    cases hold'
    refine ⟨?_, sub, rfl, refl sub⟩
    -- what is protected without being final is neither temporary nor writable
    simp only [KeyAttrs.isProtected, Flags.isProtected, Draft.reentered, notFinal] at hprotected ⊢
    simp_all
  | fresh noSection overwritten =>
    subst hold
    exact of_overwritten h overwritten

/-- An entry that is merged in never meets a protected entry either. -/
theorem of_merge (h : dst.merge src = .ok out) : Keeps dst out := by
  obtain ⟨name, ⟨entries⟩⟩ := src
  induction entries generalizing dst with
  | nil =>
    obtain rfl := merge_nil_iff.mp h
    exact refl out
  | cons entry entries ih =>
    obtain ⟨key, e⟩ := entry
    obtain ⟨e', habsorbed, hrest⟩ := merge_cons_iff.mp h
    refine trans (of_writes (.of_insert dst key e') fun old hold hprotected => ?_) (ih hrest)
    -- only what is not protected absorbs anything
    rw [hold] at habsorbed
    rw [habsorbed.unprotected] at hprotected
    cases hprotected

/-- Keeping the section at the end of a path keeps the whole tree. -/
theorem of_updatesAt {f : Section → Except ε Section}
    (hf : ∀ sub sub', f sub = .ok sub' → Keeps sub sub') (h : UpdatesAt f path s s') :
    Keeps s s' := by
  induction path generalizing s s' with
  | nil => exact hf s s' (updatesAt_nil_iff.mp h)
  | cons name path ih =>
    obtain ⟨e, ⟨sub, attrs, sub', hget, hsub', rfl⟩, hwrites⟩ :=
      (updatesAt_cons_alters f name path).writes h
    refine of_writes hwrites fun old hold hprotected => ?_
    rw [hget] at hold
    cases hold
    exact ⟨hprotected, sub', rfl, ih hsub'⟩

end Keeps

end Section

/-! ## Runs -/

namespace Session

variable {fs : FileSystem} {parse : (path text : String) → SessionM Section} {s : Session}
  {d d' : Draft} {placed : PlacedItem} {items : List PlacedItem}

/-- Whatever kind of item it is, applying it keeps the tree. -/
theorem keeps_of_applyItem (h : outcome (applyItem fs parse d placed) s = .ok d') :
    Section.Keeps d.root d'.root := by
  obtain ⟨offset, item⟩ := placed
  -- whatever the item does, it does to the section at the end of a path
  cases item with
  | header opening closing name =>
    rw [outcome, run_applyItem_header] at h
    obtain ⟨-, -, root, hroot, rfl⟩ := Draft.applyHeader_eq_ok_iff.mp h
    refine Section.Keeps.of_updatesAt (fun parent parent' hparent => ?_) hroot
    obtain ⟨e, he, hwrites⟩ := (Draft.enter_alters name _).writes hparent
    exact .of_entered hwrites he
  | assign marker key op raw =>
    rw [outcome, run_applyItem_assign] at h
    obtain ⟨value, stored, -, -, root, hroot, rfl⟩ := Draft.applyAssign_eq_ok_iff.mp h
    refine Section.Keeps.of_updatesAt (fun sub sub' hsub => ?_) hroot
    obtain ⟨e, he, hwrites⟩ := (Section.setAt_modifyFlags_alters key _ _ _).writes hsub
    exact .of_overwritten hwrites he
  | command name argument =>
    -- the included document itself does not matter, only that its tree is merged in
    obtain ⟨writable, path, text, included, -, -, habsorb⟩ := outcome_applyItem_command_eq_ok h
    obtain ⟨root, hroot, rfl⟩ := Draft.absorb_eq_ok_iff.mp habsorb
    exact Section.Keeps.of_updatesAt (fun sub sub' hsub => .of_merge hsub) hroot

/-- Any number of items keep the tree. -/
theorem keeps_of_foldlM_applyItem
    (h : outcome (items.foldlM (applyItem fs parse) d) s = .ok d') :
    Section.Keeps d.root d'.root := by
  induction items generalizing d s with
  | nil =>
    obtain rfl := outcome_foldlM_nil_eq_ok_iff.mp h
    exact .refl d'.root
  | cons placed items ih =>
    obtain ⟨d₁, hplaced, hitems⟩ := outcome_foldlM_cons_eq_ok_iff.mp h
    exact (keeps_of_applyItem hplaced).trans (ih hitems)

end Session

/-! ## Protected paths -/

namespace Section

/-- Every entry along a path is there and protected: the enclosing sections and the key itself. -/
def ProtectedAlong (s : Section) (p : List String) : Prop :=
  ∀ q, q ≠ [] → q <+: p → ∃ e, s.entryAt? q = some e ∧ e.attrs.isProtected = true

instance (s : Section) (p : List String) : Decidable (s.ProtectedAlong p) :=
  decidable_of_iff
    (∀ q ∈ p.inits, q ≠ [] → (s.entryAt? q).any (·.attrs.isProtected) = true) <| by
      simp only [List.mem_inits, Option.any_eq_true]
      exact ⟨fun h q hq hqp => h q hqp hq, fun h q hqp hq => h q hq hqp⟩

variable {s s' sub : Section} {k : String} {e old : Entry} {p q : List String}

/-- The first key of a path that is protected along the way is protected. -/
theorem ProtectedAlong.here (hs : s.ProtectedAlong (k :: p)) :
    ∃ e, s.entries.get? k = some e ∧ e.attrs.isProtected = true := by
  obtain ⟨e, he, hprotected⟩ := hs [k] (List.cons_ne_nil k []) ⟨p, rfl⟩
  exact ⟨e, by rwa [entryAt?_singleton] at he, hprotected⟩

/-- The rest of such a path is protected in the section at its first key. -/
theorem ProtectedAlong.below (hs : s.ProtectedAlong (k :: p))
    (hsub : s.subsection? k = some sub) : sub.ProtectedAlong p := by
  intro q hq hqp
  obtain ⟨e, he, hprotected⟩ := hs (k :: q) (List.cons_ne_nil k q) (by simpa using hqp)
  rw [entryAt?_cons s k hq, hsub] at he
  exact ⟨e, he, hprotected⟩

/-- What was protected and is kept is protected. -/
theorem Kept.isProtected (h : Kept old e) (hprotected : old.attrs.isProtected = true) :
    e.attrs.isProtected = true := by
  obtain ⟨value, attrs⟩ := old
  cases value with
  | scalar v =>
    obtain rfl : e = _ := h
    exact hprotected
  | subsection sub => exact h.1

/-- What keeps a tree keeps the entry at the end of a protected path. -/
theorem Keeps.entryAt? (h : Keeps s s') (hs : s.ProtectedAlong p) (hold : s.entryAt? p = some old) :
    ∃ e, s'.entryAt? p = some e ∧ Kept old e := by
  induction p generalizing s s' with
  | nil => cases hold
  | cons k p ih =>
    obtain ⟨e₀, he₀, hprotected⟩ := hs.here
    obtain ⟨e, he, hkept⟩ := h.get? he₀ hprotected
    by_cases hp : p = []
    · -- the end of the path
      subst hp
      rw [entryAt?_singleton] at hold ⊢
      rw [he₀] at hold
      cases hold
      exact ⟨e, he, hkept⟩
    · -- The path leads on, and the section at `k` is kept because it is protected.
      rw [entryAt?_cons s k hp] at hold
      rw [entryAt?_cons s' k hp]
      obtain ⟨sub, hsub, hold⟩ := Option.bind_eq_some_iff.mp hold
      obtain ⟨attrs, hget⟩ := subsection?_eq_some_iff.mp hsub
      obtain rfl := Option.some.inj (he₀.symm.trans hget)
      obtain ⟨-, sub', hvalue, hkeeps⟩ := hkept
      obtain ⟨value, attrs'⟩ := e
      obtain rfl : value = .subsection sub' := hvalue
      rw [subsection?_of_get? he]
      exact ih hkeeps (hs.below hsub) hold

/-- A path that is protected along the way stays so. -/
theorem Keeps.protectedAlong (h : Keeps s s') (hs : s.ProtectedAlong p) : s'.ProtectedAlong p := by
  intro q hq hqp
  obtain ⟨old, hold, hprotected⟩ := hs q hq hqp
  obtain ⟨e, he, hkept⟩ :=
    h.entryAt? (fun r hr hrq => hs r hr (hrq.trans hqp)) hold
  exact ⟨e, he, hkept.isProtected hprotected⟩

end Section

namespace Session

variable {fs : FileSystem} {parse : (path text : String) → SessionM Section} {s : Session}
  {d d' : Draft} {items : List PlacedItem} {p : List String} {old : Entry}

/-- However a document goes on, what is protected along its whole path stays there and stays
protected: a scalar as it is, and a section under its name and with all of its keys. -/
theorem protected_persists (h : outcome (items.foldlM (applyItem fs parse) d) s = .ok d')
    (hprotected : d.root.ProtectedAlong p) (hold : d.root.entryAt? p = some old) :
    d'.root.ProtectedAlong p ∧ ∃ e, d'.root.entryAt? p = some e ∧
      (∀ v, old.value = .scalar v → e = old) ∧
      ∀ sub, old.value = .subsection sub → ∃ sub', e.value = .subsection sub' ∧
        sub'.name = sub.name ∧ ∀ k ∈ sub.entries.keys, k ∈ sub'.entries.keys := by
  have hkeeps := keeps_of_foldlM_applyItem h
  obtain ⟨e, he, hkept⟩ := hkeeps.entryAt? hprotected hold
  refine ⟨hkeeps.protectedAlong hprotected, e, he, ?_, ?_⟩
  · intro v hv
    rwa [Section.Kept, hv] at hkept
  · intro sub hsub
    rw [Section.Kept, hsub] at hkept
    obtain ⟨-, sub', hsub', hsubkeeps⟩ := hkept
    exact ⟨sub', hsub', hsubkeeps.name, hsubkeeps.keys⟩

/-- A document that has assigned `x` in its section `a`. -/
def assigned : Draft :=
  { path := "/main", source := "[a]\nx = 1\n[a]\ny = 2\n@inherit \"extra\"\n"
    root := ⟨none, ⟨[("a", ⟨.subsection ⟨some "a", ⟨[("x", ⟨.scalar (.text "1"), {}⟩)]⟩⟩, {}⟩)]⟩⟩
    sections := ["a"] }

/-- A file system with one document for it to inherit. -/
def withExtra : FileSystem :=
  { canonicalize := .ok, contents := ⟨[("/extra", .ok "z = 3\n[b]\nx = 4\n")]⟩ }

/-- What is left of the document: an assignment, and a command that brings in two more keys. -/
def remaining : List PlacedItem :=
  [⟨10, .header 1 1 "a"⟩, ⟨14, .assign none "y" .deferred "2"⟩, ⟨20, .command "inherit" "extra"⟩]

/-- A protected key beside which an included document and a nested header write. -/
theorem protected_persists_assigned :
    ∃ d', outcome (remaining.foldlM (applyItem withExtra (parseDocument withExtra 1)) assigned) {}
        = .ok d' ∧
      (d'.root.entryAt? ["a", "b", "x"]).isSome = true ∧
      d'.root.ProtectedAlong ["a", "x"] ∧
      d'.root.entryAt? ["a", "x"] = some ⟨.scalar (.text "1"), {}⟩ := by
  obtain ⟨d', hrun, hmore⟩ := Except.exists_of_any_toOption
    (outcome (remaining.foldlM (applyItem withExtra (parseDocument withExtra 1)) assigned) {})
    (fun d' => (d'.root.entryAt? ["a", "b", "x"]).isSome) (by decide +kernel)
  obtain ⟨hprotected, e, he, hscalar, -⟩ :=
    protected_persists (p := ["a", "x"]) hrun (by decide) rfl
  exact ⟨d', hrun, hmore, hprotected, hscalar _ rfl ▸ he⟩

end Session

end LayeredConfig
