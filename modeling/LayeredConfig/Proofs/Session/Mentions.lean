import LayeredConfig.Document.Item
import LayeredConfig.Proofs.Section.Nodes
import LayeredConfig.Proofs.Section.Storing
import LayeredConfig.Template.Parse

/-!
# What a plain document says

A plain document consists of headers and of assignments of texts. Each of them mentions a path, as
that of a section or as that of a key with a text, and which path it is depends on the headers
before it only. A tree `Shows` some mentions if it holds the texts and the sections that are
mentioned, and nothing else, in the order of first mention. One more mention is shown by storing one
more entry (`Shows.putAt`).
-/

namespace LayeredConfig

/-! ## Statements -/

/-- An item of a plain document. -/
inductive Statement
  | header (opening closing : Nat) (name : String)
  | assign (key value : String)
deriving DecidableEq, Repr

/-- An item as a statement: a header, or an assignment by `=` of a value without references to a key
that is not marked as temporary. -/
def Item.statement? : Item → Option Statement
  | .header opening closing name => some (.header opening closing name)
  | .assign marker key .deferred raw =>
    if marker = some .temporary then none
    else
      match Template.parse raw with
      | .ok (.text value) => some (.assign key value)
      | _ => none
  | _ => none

/-- A path that is mentioned: as a key with a text, or as a section. -/
structure Mention where
  path : List String
  value : Option String
deriving DecidableEq, Repr

namespace Statement

/-- What a statement mentions while some sections are open. A header of depth `n` is about a section
below the `n - 1` outermost ones. -/
def mention (opened : List String) : Statement → Mention
  | .header opening _ name => ⟨opened.take (opening - 1) ++ [name], none⟩
  | .assign key value => ⟨opened ++ [key], some value⟩

/-- The sections that are open after a statement. -/
def opens (opened : List String) : Statement → List String
  | .header opening _ name => opened.take (opening - 1) ++ [name]
  | .assign _ _ => opened

/-- A header has as many closing brackets as opening ones, and goes at most one level deeper. -/
def Fits (opened : List String) : Statement → Prop
  | .header opening closing _ => opening = closing ∧ opening ≤ opened.length + 1
  | .assign _ _ => True

instance (opened : List String) : DecidablePred (Fits opened)
  | .header opening closing _ =>
    inferInstanceAs (Decidable (opening = closing ∧ opening ≤ opened.length + 1))
  | .assign _ _ => inferInstanceAs (Decidable True)

/-- What some statements mention, one after the other. -/
def mentions : (opened : List String) → List Statement → List Mention
  | _, [] => []
  | opened, st :: rest => st.mention opened :: mentions (st.opens opened) rest

/-- Every header fits where it stands. -/
def WellNested : (opened : List String) → List Statement → Prop
  | _, [] => True
  | opened, st :: rest => st.Fits opened ∧ WellNested (st.opens opened) rest

/-- Decides whether every header fits where it stands. -/
instance decidableWellNested : (opened : List String) → (statements : List Statement) →
    Decidable (WellNested opened statements)
  | _, [] => inferInstanceAs (Decidable True)
  | opened, st :: rest =>
    have := decidableWellNested (st.opens opened) rest
    inferInstanceAs (Decidable (st.Fits opened ∧ WellNested (st.opens opened) rest))

end Statement

/-! ## Mentions -/

/-- The paths that are mentioned as keys with texts. -/
def assignedPaths (ms : List Mention) : List (List String) :=
  (ms.filter (·.value.isSome)).map (·.path)

/-- The paths that are mentioned as sections. -/
def openedPaths (ms : List Mention) : List (List String) :=
  (ms.filter (·.value.isNone)).map (·.path)

/-- No path is assigned twice, and none is both assigned and opened as a section. -/
structure Consistent (ms : List Mention) : Prop where
  once : (assignedPaths ms).Nodup
  apart : ∀ p ∈ assignedPaths ms, p ∉ openedPaths ms

instance : DecidablePred Consistent := fun ms =>
  decidable_of_iff ((assignedPaths ms).Nodup ∧ ∀ p ∈ assignedPaths ms, p ∉ openedPaths ms)
    ⟨fun h => ⟨h.1, h.2⟩, fun h => ⟨h.once, h.apart⟩⟩

/-- The keys mentioned in the section at a path, in the order in which they are mentioned first. -/
def childrenOf (path : List String) (ms : List Mention) : List String :=
  (ms.filterMap fun m => if m.path.dropLast = path then m.path.getLast? else none).eraseDups

/-- A mapping holds the texts and the mappings that are mentioned and nothing else, and at every
level its keys are in the order of first mention. -/
structure Describes (ms : List Mention) (m : PlainMap) : Prop where
  text_iff : ∀ p x, m.at? p = some (.text x) ↔ ⟨p, some x⟩ ∈ ms
  mapping_iff : ∀ p, (∃ inner, m.at? p = some (.mapping inner)) ↔ p = [] ∨ ⟨p, none⟩ ∈ ms
  keys_eq : ∀ p inner, m.at? p = some (.mapping inner) → inner.keys = childrenOf p ms

variable {ms before after : List Mention} {m : Mention} {p q path : List String} {key : String}
  {root s : Section} {e : Entry}

/-- The assigned paths are those that are mentioned with a text. -/
theorem mem_assignedPaths_iff : p ∈ assignedPaths ms ↔ ∃ x, ⟨p, some x⟩ ∈ ms := by
  simp only [assignedPaths, List.mem_map, List.mem_filter]
  constructor
  · rintro ⟨⟨p, value⟩, ⟨hmem, hvalue⟩, rfl⟩
    obtain ⟨x, rfl⟩ := Option.isSome_iff_exists.mp hvalue
    exact ⟨x, hmem⟩
  · rintro ⟨x, hmem⟩
    exact ⟨⟨p, some x⟩, ⟨hmem, rfl⟩, rfl⟩

/-- The opened paths are those that are mentioned as sections. -/
theorem mem_openedPaths_iff : p ∈ openedPaths ms ↔ ⟨p, none⟩ ∈ ms := by
  simp only [openedPaths, List.mem_map, List.mem_filter]
  constructor
  · rintro ⟨⟨p, value⟩, ⟨hmem, hvalue⟩, rfl⟩
    obtain rfl := Option.isNone_iff_eq_none.mp hvalue
    exact hmem
  · intro hmem
    exact ⟨⟨p, none⟩, ⟨hmem, rfl⟩, rfl⟩

/-- What is consistent with more behind it is consistent. -/
theorem Consistent.of_append (h : Consistent (before ++ after)) : Consistent before := by
  obtain ⟨honce, hapart⟩ := h
  rw [assignedPaths, List.filter_append, List.map_append] at honce
  refine ⟨(List.nodup_append.mp honce).1, fun p hp hopened => ?_⟩
  obtain ⟨x, hx⟩ := mem_assignedPaths_iff.mp hp
  exact hapart p (mem_assignedPaths_iff.mpr ⟨x, List.mem_append_left after hx⟩)
    (mem_openedPaths_iff.mpr (List.mem_append_left after (mem_openedPaths_iff.mp hopened)))

/-- One more mention: a section must not have been assigned, and a key must be new altogether. -/
theorem consistent_concat_iff (h : Consistent ms) :
    Consistent (ms ++ [m]) ↔
      m.path ∉ assignedPaths ms ∧ (m.value.isSome = true → m.path ∉ openedPaths ms) := by
  obtain ⟨p, value⟩ := m
  -- A new section may be mentioned again, a new text may not.
  cases value with
  | none =>
    have hassigned : assignedPaths (ms ++ [⟨p, none⟩]) = assignedPaths ms := by
      simp [assignedPaths]
    have hopened : openedPaths (ms ++ [⟨p, none⟩]) = openedPaths ms ++ [p] := by
      simp [openedPaths]
    constructor
    · rintro ⟨-, hapart⟩
      rw [hassigned, hopened] at hapart
      exact ⟨fun hp => hapart p hp (List.mem_append_right _ List.mem_cons_self), nofun⟩
    · rintro ⟨hp, -⟩
      refine ⟨hassigned ▸ h.once, fun q hq => ?_⟩
      rw [hassigned] at hq
      rw [hopened, List.mem_append, List.mem_singleton, not_or]
      exact ⟨h.apart q hq, fun heq => hp (heq ▸ hq)⟩
  | some x =>
    have hassigned : assignedPaths (ms ++ [⟨p, some x⟩]) = assignedPaths ms ++ [p] := by
      simp [assignedPaths]
    have hopened : openedPaths (ms ++ [⟨p, some x⟩]) = openedPaths ms := by
      simp [openedPaths]
    constructor
    · rintro ⟨honce, hapart⟩
      rw [hassigned] at honce hapart
      rw [hopened] at hapart
      refine ⟨fun hp => ?_, fun _ => hapart p (List.mem_append_right _ List.mem_cons_self)⟩
      exact (List.nodup_append.mp honce).2.2 p hp p List.mem_cons_self rfl
    · rintro ⟨hp, hpopened⟩
      constructor
      · rw [hassigned]
        exact h.once.append (List.nodup_singleton p) (by simpa using hp)
      · intro q hq
        rw [hopened]
        rw [hassigned, List.mem_append, List.mem_singleton] at hq
        rcases hq with hq | rfl
        · exact h.apart q hq
        · exact hpopened rfl

/-- A mention of a key adds the key to its section, unless it has been mentioned there. -/
theorem childrenOf_concat_self (path : List String) (key : String) (value : Option String) :
    childrenOf path (ms ++ [⟨path ++ [key], value⟩]) =
      if key ∈ childrenOf path ms then childrenOf path ms else childrenOf path ms ++ [key] := by
  have hsingleton : [key].eraseDups = [key] := rfl
  simp only [childrenOf, List.filterMap_append, List.filterMap_cons, List.filterMap_nil,
    List.dropLast_concat, if_true, List.getLast?_concat, List.eraseDups_append, List.mem_eraseDups]
  split
  · rename_i hmem
    rw [List.removeAll, List.filter_cons_of_neg (by simpa using hmem)]
    exact List.append_nil _
  · rename_i hmem
    rw [List.removeAll, List.filter_cons_of_pos (by simpa using hmem), List.filter_nil, hsingleton]

/-- A mention elsewhere adds no key to a section. -/
theorem childrenOf_concat_of_ne (h : m.path.dropLast ≠ path) :
    childrenOf path (ms ++ [m]) = childrenOf path ms := by
  rw [childrenOf, childrenOf, List.filterMap_append, List.filterMap_cons, if_neg h]
  simp only [List.filterMap_nil, List.append_nil]

/-! ## Trees -/

/-- In the tree shows what is mentioned. -/
structure Shows (ms : List Mention) (root : Section) : Prop where
  scalar_iff : ∀ p v, root.nodeAt? p = some (.scalar v) ↔ ∃ x, v = .text x ∧ ⟨p, some x⟩ ∈ ms
  keys_iff : ∀ p keys, root.nodeAt? p = some (.keys keys) ↔
    (p = [] ∨ ⟨p, none⟩ ∈ ms) ∧ keys = childrenOf p ms

namespace Shows

/-- The mapping of a tree that shows some mentions describes them. -/
theorem describes (h : Shows ms root) : Describes ms root.toPlain := by
  have htext : ∀ p x, root.toPlain.at? p = some (.text x) ↔
      ∃ v, root.nodeAt? p = some (.scalar v) ∧ v.render = x :=
    fun p x => Section.at?_toPlainValue_eq_text_iff (w := .subsection root)
  have hmapping : ∀ p keys, (∃ m, root.toPlain.at? p = some (.mapping m) ∧ m.keys = keys) ↔
      root.nodeAt? p = some (.keys keys) :=
    fun p keys => Section.at?_toPlainValue_eq_mapping_iff (w := .subsection root)
  -- Texts, mappings and the order of keys carry over one by one from the nodes of the tree.
  refine ⟨fun p x => ?_, fun p => ?_, fun p inner hinner => ?_⟩
  · rw [htext]
    constructor
    · rintro ⟨v, hv, rfl⟩
      obtain ⟨x, rfl, hmem⟩ := (h.scalar_iff p v).mp hv
      exact hmem
    · intro hmem
      exact ⟨.text x, (h.scalar_iff p _).mpr ⟨x, rfl, hmem⟩, rfl⟩
  · constructor
    · rintro ⟨inner, hinner⟩
      exact ((h.keys_iff p inner.keys).mp ((hmapping p _).mp ⟨inner, hinner, rfl⟩)).1
    · intro hp
      obtain ⟨inner, hinner, -⟩ :=
        (hmapping p (childrenOf p ms)).mpr ((h.keys_iff p _).mpr ⟨hp, rfl⟩)
      exact ⟨inner, hinner⟩
  · exact ((h.keys_iff p inner.keys).mp ((hmapping p _).mp ⟨inner, hinner, rfl⟩)).2

/-- A path is assigned exactly if a scalar shows there. -/
theorem mem_assignedPaths_iff (h : Shows ms root) :
    p ∈ assignedPaths ms ↔ ∃ v, root.nodeAt? p = some (.scalar v) := by
  rw [LayeredConfig.mem_assignedPaths_iff]
  constructor
  · rintro ⟨x, hx⟩
    exact ⟨.text x, (h.scalar_iff p _).mpr ⟨x, rfl, hx⟩⟩
  · rintro ⟨v, hv⟩
    obtain ⟨x, -, hx⟩ := (h.scalar_iff p v).mp hv
    exact ⟨x, hx⟩

/-- Nothing shows at a path exactly if it is not mentioned. -/
theorem nodeAt?_eq_none_iff (h : Shows ms root) (hp : p ≠ []) :
    root.nodeAt? p = none ↔ p ∉ assignedPaths ms ∧ p ∉ openedPaths ms := by
  rw [h.mem_assignedPaths_iff, mem_openedPaths_iff]
  have hkeys := h.keys_iff p
  constructor
  · intro hnone
    rw [hnone] at hkeys
    refine ⟨fun ⟨v, hv⟩ => ?_, fun hopened => ?_⟩
    · rw [hnone] at hv
      cases hv
    · cases (hkeys _).mpr ⟨Or.inr hopened, rfl⟩
  · rintro ⟨hassigned, hopened⟩
    cases hnode : root.nodeAt? p with
    | none => rfl
    | some node =>
      cases node with
      | scalar v => exact absurd ⟨v, hnode⟩ hassigned
      | keys keys =>
        obtain ⟨hp' | hopened', -⟩ := (hkeys keys).mp hnode
        · exact absurd hp' hp
        · exact absurd hopened' hopened

/-- In a section that is not there, no key has been mentioned. -/
theorem childrenOf_eq_nil (h : Shows ms root) (hnone : root.nodeAt? p = none) :
    childrenOf p ms = [] := by
  rw [List.eq_nil_iff_forall_not_mem]
  intro k hk
  rw [childrenOf, List.mem_eraseDups, List.mem_filterMap] at hk
  obtain ⟨⟨q, value⟩, hmem, hlast⟩ := hk
  -- A key mentioned below `p` would be a node below a place where there is none.
  by_cases hq : q.dropLast = p
  · rw [if_pos hq] at hlast
    have hqk : p ++ [k] = q := by
      rw [← hq]
      exact List.dropLast_append_getLast? k hlast
    have hbelow : root.nodeAt? q = none := by
      rw [← hqk]
      exact Value.nodeAt?_append_of_eq_none hnone [k]
    cases value with
    | none =>
      rw [(h.keys_iff q _).mpr ⟨Or.inr hmem, rfl⟩] at hbelow
      cases hbelow
    | some x =>
      rw [(h.scalar_iff q _).mpr ⟨x, rfl, hmem⟩] at hbelow
      cases hbelow
  · rw [if_neg hq] at hlast
    cases hlast

/-- Storing an entry shows one mention more: the key was not assigned, it is a new one if it is
assigned now, and nothing else shows below it than did before. -/
theorem putAt (h : Shows ms root) (hs : root.sectionAt? path = some s) {value : Option String}
    (hassigned : path ++ [key] ∉ assignedPaths ms)
    (hnew : value.isSome = true → path ++ [key] ∉ openedPaths ms)
    (hnode : e.value.node = match value with
      | some x => .scalar (.text x)
      | none => .keys (childrenOf (path ++ [key]) ms))
    (hbelow : ∀ q, q ≠ [] → e.value.nodeAt? q = root.nodeAt? (path ++ key :: q)) :
    Shows (ms ++ [⟨path ++ [key], value⟩]) (root.putAt path key e) := by
  -- Only the nodes at `path ++ [key]` and at `path`, which may get a new key, are not the old ones.
  have hparent : path ≠ path ++ [key] := by simp
  have hsnode : root.nodeAt? path = some (.keys s.entries.keys) :=
    Section.nodeAt?_eq_keys_iff.mpr ⟨s, hs, rfl⟩
  obtain ⟨hopen, hskeys⟩ := (h.keys_iff path _).mp hsnode
  have hputkeys : (s.put key e).entries.keys =
      childrenOf path (ms ++ [⟨path ++ [key], value⟩]) := by
    rw [childrenOf_concat_self, ← hskeys]
    exact OrderedMap.keys_insert s.entries key e
  have hmem : ∀ q v, q ≠ path ++ [key] →
      (⟨q, v⟩ ∈ ms ++ [(⟨path ++ [key], value⟩ : Mention)] ↔ ⟨q, v⟩ ∈ ms) := by
    intro q v hq
    simp [hq]
  have hchildren : ∀ q, q ≠ path →
      childrenOf q (ms ++ [⟨path ++ [key], value⟩]) = childrenOf q ms :=
    fun q hq => childrenOf_concat_of_ne (by simpa using hq.symm)
  constructor
  · intro q v
    rw [Section.nodeAt?_putAt hs hbelow]
    by_cases hq : q = path ++ [key]
    · -- the text that is assigned now, since none was before
      subst hq
      rw [if_pos rfl, hnode]
      have hold : ∀ x, ⟨path ++ [key], some x⟩ ∉ ms :=
        fun x hx => hassigned (LayeredConfig.mem_assignedPaths_iff.mpr ⟨x, hx⟩)
      cases value with
      | none => simp [hold]
      | some x => simp [hold, eq_comm]
    · rw [if_neg hq]
      simp only [hmem q _ hq]
      by_cases hqpath : q = path
      · subst hqpath
        rw [if_pos rfl, ← h.scalar_iff, hsnode]
        simp
      · rw [if_neg hqpath, h.scalar_iff]
  · intro q keys
    rw [Section.nodeAt?_putAt hs hbelow]
    by_cases hq : q = path ++ [key]
    · subst hq
      rw [if_pos rfl, hnode, hchildren _ hparent.symm]
      cases value with
      | none =>
        constructor
        · intro heq
          cases heq
          exact ⟨Or.inr (List.mem_append_right ms List.mem_cons_self), rfl⟩
        · rintro ⟨-, rfl⟩
          rfl
      | some x =>
        have hold : ⟨path ++ [key], none⟩ ∉ ms :=
          fun hx => hnew rfl (mem_openedPaths_iff.mpr hx)
        simp [hold]
    · rw [if_neg hq, hmem q _ hq]
      by_cases hqpath : q = path
      · subst hqpath
        rw [if_pos rfl, hputkeys]
        simp [hopen, eq_comm]
      · rw [if_neg hqpath, h.keys_iff, hchildren q hqpath]

end Shows

end LayeredConfig
