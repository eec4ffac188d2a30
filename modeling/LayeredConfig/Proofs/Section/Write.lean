import LayeredConfig.Proofs.Except
import LayeredConfig.Proofs.Section.Paths
import LayeredConfig.Section.Write

/-!
# What writing into a section changes

All that happens to a section while a document is read happens to one key at a time. `Writes` says
what that means: one look-up changes, and a key that was not there goes to the end. `Alters` says
of an operation that it does this, and which entry it puts at the key, given the one that was there.
-/

namespace LayeredConfig.Section

variable {s s' sub sub' : Section} {key k : String} {e : Entry} {path : List String}

/-! ## One entry -/

/-- The section `s'` is `s` with the entry `e` at `key`. -/
structure Writes (s : Section) (key : String) (e : Entry) (s' : Section) : Prop where
  name : s'.name = s.name
  keys : s'.entries.keys =
    if key ∈ s.entries.keys then s.entries.keys else s.entries.keys ++ [key]
  get? : ∀ k, s'.entries.get? k = if k = key then some e else s.entries.get? k

namespace Writes

/-- Inserting an entry writes it. -/
theorem of_insert (s : Section) (key : String) (e : Entry) :
    Writes s key e { s with entries := s.entries.insert key e } :=
  ⟨rfl, OrderedMap.keys_insert s.entries key e, fun k => OrderedMap.get?_insert s.entries key k e⟩

/-- Changing the entry of a key writes the changed entry. -/
theorem of_modify (h : s.entries.get? key = some e) (f : Entry → Entry) :
    Writes s key (f e) { s with entries := s.entries.modify key f } := by
  refine ⟨rfl, ?_, fun k => ?_⟩
  · simp [OrderedMap.mem_keys_of_get? h]
  · simp only [OrderedMap.get?_modify]
    by_cases hk : k = key
    · rw [if_pos hk, if_pos hk, hk, h, Option.map_some]
    · rw [if_neg hk, if_neg hk]

/-- What was written is found. -/
theorem get?_self (h : Writes s key e s') : s'.entries.get? key = some e := by
  rw [h.get?, if_pos rfl]

/-- What is under the other keys stays. -/
theorem get?_of_ne (h : Writes s key e s') (hk : k ≠ key) :
    s'.entries.get? k = s.entries.get? k := by
  rw [h.get?, if_neg hk]

/-- The keys are those that were there and the one written. -/
theorem mem_keys_iff (h : Writes s key e s') :
    k ∈ s'.entries.keys ↔ k = key ∨ k ∈ s.entries.keys := by
  rw [h.keys, ← OrderedMap.keys_insert s.entries key e, OrderedMap.mem_keys_insert]

/-- A further change of the entry that has just been written. -/
theorem modify (h : Writes s key e s') (f : Entry → Entry) :
    Writes s key (f e) { s' with entries := s'.entries.modify key f } := by
  have hf := of_modify h.get?_self f
  refine ⟨h.name, ?_, fun k => ?_⟩
  · rw [OrderedMap.keys_modify, h.keys]
  · rw [hf.get?, h.get?]
    split <;> rfl

/-- A write keeps distinct keys distinct. -/
theorem keysDistinct (h : Writes s key e s') (hs : s.KeysDistinct) : s'.KeysDistinct := by
  unfold KeysDistinct
  rw [h.keys, ← OrderedMap.keys_insert s.entries key e]
  exact OrderedMap.nodup_keys_insert hs key e

/-- What holds of a section and everything below it holds after a write, if it holds of the section
that has been changed and below the entry that has been written. -/
theorem everywhere {P : Section → Prop} (h : Writes s key e s') (hs : s.Everywhere P) (here : P s')
    (below : ∀ sub, e.value = .subsection sub → sub.Everywhere P) : s'.Everywhere P := by
  refine .intro here fun k sub hsub => ?_
  obtain ⟨attrs, hget⟩ := subsection?_eq_some_iff.mp hsub
  by_cases hk : k = key
  · subst hk
    rw [h.get?_self] at hget
    cases hget
    exact below sub rfl
  · rw [h.get?_of_ne hk] at hget
    exact hs.down (subsection?_of_get? hget)

end Writes

/-! ## Operations on one key -/

/-- The operation `R` replaces the entry of `key`, if there is one, by an entry that `G` relates to
it, and succeeds whenever there is such an entry. -/
structure Alters (R : Section → Section → Prop) (key : String)
    (G : Option Entry → Entry → Prop) : Prop where
  writes : ∀ {s s'}, R s s' → ∃ e, G (s.entries.get? key) e ∧ Writes s key e s'
  succeeds : ∀ {s e}, G (s.entries.get? key) e → ∃ s', R s s' ∧ Writes s key e s'

/-- An operation that alters a key so alters it in any equivalent way. -/
theorem Alters.congr {R : Section → Section → Prop} {G G' : Option Entry → Entry → Prop}
    (h : Alters R key G) (hG : ∀ old e, G old e ↔ G' old e) : Alters R key G' := by
  obtain rfl : G = G' := funext fun old => funext fun e => propext (hG old e)
  exact h

/-- An operation that alters a key, followed by a change of its attributes, alters it with the
attributes changed. -/
theorem Alters.map_modifyAttrs {f : Section → Except ε Section}
    {G : Option Entry → Entry → Prop} (h : Alters (fun s s' => f s = .ok s') key G)
    (change : KeyAttrs → KeyAttrs) :
    Alters (fun s s' => (f s).map (·.modifyAttrs key change) = .ok s') key
      fun old e => ∃ e₀, G old e₀ ∧ e = { e₀ with attrs := change e₀.attrs } := by
  constructor
  · intro s s' hs
    obtain ⟨s₀, hs₀, rfl⟩ := Except.map_eq_ok_iff.mp hs
    obtain ⟨e₀, hG, hwrites⟩ := h.writes hs₀
    exact ⟨_, ⟨e₀, hG, rfl⟩, hwrites.modify fun e => { e with attrs := change e.attrs }⟩
  · rintro s _ ⟨e₀, hG, rfl⟩
    obtain ⟨s₀, hs₀, hwrites⟩ := h.succeeds hG
    exact ⟨_, Except.map_eq_ok_iff.mpr ⟨s₀, hs₀, rfl⟩,
      hwrites.modify fun e => { e with attrs := change e.attrs }⟩

/-- The definitions of a key so far. -/
def historyOf (old : Option Entry) : Provenance :=
  (old.map fun e => e.attrs.history).getD {}

/-- Setting a key replaces its entry by one with no flags and the old history, unless it is
protected. -/
theorem set_alters (key : String) (value : Value) :
    Alters (fun s s' => s.set key value = .ok s') key fun old e =>
      old.any (fun o => o.attrs.isProtected) = false ∧
        e = ⟨value, { history := historyOf old }⟩ := by
  constructor
  · intro s s' h
    rw [set, isProtected_eq, attrs?_eq, Option.map_map] at h
    split at h
    · cases h
    · rename_i hprotected
      cases h
      exact ⟨_, ⟨Bool.not_eq_true _ ▸ hprotected, rfl⟩, .of_insert s key _⟩
  · rintro s _ ⟨hprotected, rfl⟩
    refine ⟨_, ?_, .of_insert s key _⟩
    rw [set, isProtected_eq, hprotected, attrs?_eq, Option.map_map]
    rfl

/-- What an ordinary write leaves at a key: the new value, the new flags, and the history of the
key with one definition more. Protection must allow it. -/
def Overwritten (value : Value) (flags : Flags) (origin : Origin) (old : Option Entry)
    (e : Entry) : Prop :=
  old.any (fun o => o.attrs.isProtected) = false ∧
    e = ⟨value, { flags, history := (historyOf old).push origin }⟩

/-- Setting a key with an origin is an ordinary write without flags. -/
theorem setAt_alters (key : String) (value : Value) (origin : Origin) :
    Alters (fun s s' => s.setAt key value origin = .ok s') key
      (Overwritten value {} origin) := by
  refine ((set_alters key value).map_modifyAttrs _).congr fun old e => ?_
  constructor
  · rintro ⟨_, ⟨hprotected, rfl⟩, rfl⟩
    exact ⟨hprotected, rfl⟩
  · rintro ⟨hprotected, rfl⟩
    exact ⟨_, ⟨hprotected, rfl⟩, rfl⟩

/-- An assignment is a write that marks its key in addition. -/
theorem setAt_modifyFlags_alters (key : String) (value : Value) (origin : Origin)
    (flags : Flags) :
    Alters (fun s s' =>
        (s.setAt key value origin).map (·.modifyFlags key fun _ => flags) = .ok s')
      key (Overwritten value flags origin) := by
  refine ((setAt_alters key value origin).map_modifyAttrs _).congr fun old e => ?_
  constructor
  · rintro ⟨_, ⟨hprotected, rfl⟩, rfl⟩
    exact ⟨hprotected, rfl⟩
  · rintro ⟨hprotected, rfl⟩
    exact ⟨_, ⟨hprotected, rfl⟩, rfl⟩

/-! ## Operations below a path -/

/-- The operation `R` applied to the section that a path of names leads to. -/
def UpdatesAt (f : Section → Except ε Section) (path : List String) (s s' : Section) : Prop :=
  s.updateAt path f = some (.ok s')

/-- At the empty path, an update is the operation itself. -/
theorem updatesAt_nil_iff {f : Section → Except ε Section} :
    UpdatesAt f [] s s' ↔ f s = .ok s' := by
  simp [UpdatesAt, updateAt]

/-- Below the first name of a path, an update changes the section there and nothing else. -/
def UpdatedBelow (f : Section → Except ε Section) (path : List String) (old : Option Entry)
    (e : Entry) : Prop :=
  ∃ sub attrs sub', old = some ⟨.subsection sub, attrs⟩ ∧ UpdatesAt f path sub sub' ∧
    e = ⟨.subsection sub', attrs⟩

/-- An update below a name alters the entry of this name. -/
theorem updatesAt_cons_alters (f : Section → Except ε Section) (name : String)
    (path : List String) :
    Alters (UpdatesAt f (name :: path)) name (UpdatedBelow f path) := by
  constructor
  · intro s s' h
    simp only [UpdatesAt, updateAt] at h
    cases hsub : s.subsection? name with
    -- without a section of this name the update fails
    | none => simp [hsub] at h
    | some sub =>
      obtain ⟨attrs, hget⟩ := subsection?_eq_some_iff.mp hsub
      simp only [hsub, Option.map_eq_some_iff] at h
      obtain ⟨result, hresult, h⟩ := h
      obtain ⟨sub', rfl, rfl⟩ := Except.map_eq_ok_iff.mp h
      exact ⟨_, ⟨sub, attrs, sub', hget, hresult, rfl⟩,
        .of_modify hget fun e => { e with value := .subsection sub' }⟩
  · rintro s _ ⟨sub, attrs, sub', hget, hsub', rfl⟩
    refine ⟨_, ?_, .of_modify hget fun e => { e with value := .subsection sub' }⟩
    rw [UpdatesAt, updateAt, subsection?_of_get? hget]
    simp only [show sub.updateAt path f = some (.ok sub') from hsub', Option.map_some]
    rfl

/-- An update at a path keeps the name of a section if the operation does. -/
theorem UpdatesAt.name_eq {f : Section → Except ε Section}
    (hf : ∀ s s', f s = .ok s' → s'.name = s.name) (h : UpdatesAt f path s s') :
    s'.name = s.name := by
  cases path with
  | nil => exact hf s s' (updatesAt_nil_iff.mp h)
  | cons name path =>
    obtain ⟨e, -, hwrites⟩ := (updatesAt_cons_alters f name path).writes h
    exact hwrites.name

/-- An update changes the section at the end of its path, which leads to a section afterwards as it
did before. -/
theorem UpdatesAt.sectionAt? {f : Section → Except ε Section} (h : UpdatesAt f path s s') :
    ∃ sub sub', s.sectionAt? path = some sub ∧ f sub = .ok sub' ∧
      s'.sectionAt? path = some sub' := by
  induction path generalizing s s' with
  | nil => exact ⟨s, s', rfl, updatesAt_nil_iff.mp h, rfl⟩
  | cons name path ih =>
    obtain ⟨e, ⟨sub, attrs, sub', hget, hsub', rfl⟩, hwrites⟩ :=
      (updatesAt_cons_alters f name path).writes h
    obtain ⟨last, last', hlast, hf, hlast'⟩ := ih hsub'
    refine ⟨last, last', ?_, hf, ?_⟩
    · rw [sectionAt?_cons, subsection?_of_get? hget, Option.bind_some, hlast]
    · rw [sectionAt?_cons, subsection?_of_get? hwrites.get?_self, Option.bind_some, hlast']

/-- Renaming the errors of an operation does not change what it updates. -/
theorem updatesAt_mapError_iff {f : Section → Except ε Section} {h : ε → ε'} :
    UpdatesAt (fun x => (f x).mapError h) path s s' ↔ UpdatesAt f path s s' := by
  induction path generalizing s s' with
  | nil => rw [updatesAt_nil_iff, updatesAt_nil_iff, Except.mapError_eq_ok_iff]
  | cons name path ih =>
    simp only [UpdatesAt, updateAt] at ih ⊢
    cases s.subsection? name with
    | none => simp
    | some sub => simp [Except.map_eq_ok_iff, ih]

end LayeredConfig.Section
