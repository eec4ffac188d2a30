import LayeredConfig.Proofs.Session.Frames

/-!
# Why an item fails

A change of the open section fails because protection refuses it, or because the open section is not
there. As long as it is there (`Draft.IsOpen`), each kind of item has few ways to fail, and every
failure carries the back trace of the item. The statements of this file list them; what a successful
item does is listed apart from that.
-/

namespace LayeredConfig

namespace Section

variable {s s' : Section} {key : String} {value : Value} {origin : Origin} {path : List String}
  {cause : SectionError} {ε : Type} {e : ε}

/-- An update has no result if its path leads to no section. -/
theorem updateAt_eq_none_iff {f : Section → Except ε Section} :
    s.updateAt path f = none ↔ s.sectionAt? path = none := by
  induction path generalizing s with
  | nil => exact ⟨nofun, nofun⟩
  | cons name path ih =>
    rw [updateAt, sectionAt?_cons]
    cases s.subsection? name with
    | none => exact ⟨fun _ => rfl, fun _ => rfl⟩
    | some sub => rw [Option.map_eq_none_iff, ih, Option.bind_some]

/-- An update fails if the change of the section at the end of its path fails. -/
theorem updateAt_eq_error_iff {f : Section → Except ε Section} :
    s.updateAt path f = some (.error e) ↔
      ∃ sub, s.sectionAt? path = some sub ∧ f sub = .error e := by
  induction path generalizing s with
  | nil =>
    rw [updateAt, Option.some.injEq]
    constructor
    · intro h
      exact ⟨s, rfl, h⟩
    · rintro ⟨sub, hsub, h⟩
      cases hsub
      exact h
  | cons name path ih =>
    rw [updateAt, sectionAt?_cons]
    cases s.subsection? name with
    | none =>
      constructor
      · intro h
        cases h
      · rintro ⟨sub, hsub, -⟩
        cases hsub
    | some sub =>
      -- The failure comes up unchanged from the section of the first name.
      simp only [Option.map_eq_some_iff, Except.map_eq_error_iff, Option.bind_some]
      rw [← ih]
      constructor
      · rintro ⟨_, h, rfl⟩
        exact h
      · intro h
        exact ⟨_, h, rfl⟩

/-- Protection refuses a write of a key in the name of that key. -/
theorem eq_of_setAt_eq_error (h : s.setAt key value origin = .error cause) :
    cause = .keyNotWritable key := by
  rw [setAt, Except.map_eq_error_iff, set] at h
  split at h
  · cases h
    rfl
  · cases h

end Section

namespace Draft

variable {d d' : Draft} {frames : List Frame} {offset opening closing : Nat} {name key : String}
  {origin : Origin} {marker : Option Marker} {op : AssignOp} {raw : String} {value : Scalar}
  {writable : Bool} {included parent : Section} {e : ParseError} {cause : SectionError}

/-- The names of the open sections lead, one inside the other, to a section of the tree. -/
def IsOpen (d : Draft) : Prop :=
  ∃ s, d.root.sectionAt? d.sections = some s

/-- What is around an open section is open. -/
theorem IsOpen.take (h : d.IsOpen) (n : Nat) :
    { d with sections := d.sections.take n }.IsOpen := by
  obtain ⟨s, hs⟩ := h
  rw [← List.take_append_drop n d.sections, Section.sectionAt?_append] at hs
  obtain ⟨around, haround, -⟩ := Option.bind_eq_some_iff.mp hs
  exact ⟨around, haround⟩

/-- An open section can be changed unless protection refuses it. -/
theorem writeOpen_eq_error {f : Section → Except SectionError Section} (hd : d.IsOpen)
    (h : d.writeOpen origin f = .error e) :
    ∃ s cause, d.root.sectionAt? d.sections = some s ∧ f s = .error cause ∧
      e = .writeProtection cause origin := by
  obtain ⟨s, hs⟩ := hd
  unfold writeOpen updateOpen at h
  split at h
  · -- without a section there would be another error, but the open section is there
    rename_i hnone
    rw [Section.updateAt_eq_none_iff, hs] at hnone
    cases hnone
  · rename_i result hresult
    rw [Except.map_eq_error_iff] at h
    subst h
    obtain ⟨s', hs', hf⟩ := Section.updateAt_eq_error_iff.mp hresult
    cases hcause : f s' with
    | ok s'' =>
      rw [hcause] at hf
      cases hf
    | error cause =>
      rw [hcause] at hf
      cases hf
      exact ⟨s', cause, hs', hcause, rfl⟩

/-! ## Headers -/

/-- A section is not entered because it is final, or because its name is taken by a protected key.
-/
theorem enter_eq_error (h : enter parent name origin = .error cause) :
    (∃ sub attrs, parent.entries.get? name = some ⟨.subsection sub, attrs⟩ ∧
        attrs.flags.final = true ∧ cause = .sectionNotWritable name) ∨
      ((parent.entries.get? name).any (fun o => o.value.isSubsection) = false ∧
        cause = .keyNotWritable name) := by
  -- A section is refused if it is final, and anything else if it is protected.
  by_cases hsection : (parent.entries.get? name).any (fun o => o.value.isSubsection) = true
  · left
    obtain ⟨⟨value, attrs⟩, hget, hvalue⟩ := (Option.any_eq_true _ _).mp hsection
    obtain ⟨sub, rfl⟩ := Value.isSubsection_iff.mp hvalue
    rw [enter_of_subsection hget] at h
    split at h
    · rename_i hfinal
      cases h
      exact ⟨sub, attrs, hget, hfinal, rfl⟩
    · cases h
  · right
    rw [Bool.not_eq_true] at hsection
    rw [enter_of_noSection hsection] at h
    exact ⟨hsection, Section.eq_of_setAt_eq_error h⟩

/-- A header fails for its brackets, for its depth, or because its section cannot be entered, in
this order. -/
theorem applyHeader_eq_error (hd : d.IsOpen)
    (h : d.applyHeader frames offset opening closing name = .error e) :
    (opening ≠ closing ∧ e = .malformed .unbalancedHeader (d.origin frames offset)) ∨
      (opening = closing ∧ d.sections.length + 1 < opening ∧
        e = .malformed .headerTooDeep (d.origin frames offset)) ∨
      ∃ parent cause, opening = closing ∧
        d.root.sectionAt? (d.sections.take (opening - 1)) = some parent ∧
        enter parent name
          ({ d with sections := d.sections.take (opening - 1) }.origin frames offset)
            = .error cause ∧
        e = .writeProtection cause
          ({ d with sections := d.sections.take (opening - 1) }.origin frames offset) := by
  unfold applyHeader at h
  split at h
  · rename_i hunbalanced
    cases h
    exact Or.inl ⟨hunbalanced, rfl⟩
  · rename_i hbalanced
    rw [ne_eq, Decidable.not_not] at hbalanced
    split at h
    · rename_i hdeep
      cases h
      exact Or.inr (Or.inl ⟨hbalanced, hdeep, rfl⟩)
    · rw [Except.map_eq_error_iff] at h
      obtain ⟨parent, cause, hparent, hcause, he⟩ := writeOpen_eq_error (hd.take _) h
      exact Or.inr (Or.inr ⟨parent, cause, hbalanced, hparent, hcause, he⟩)

/-! ## Assignments -/

/-- An immediate value that cannot be evaluated is an error in a reference. -/
theorem storedValue_eq_error (h : d.storedValue origin key op value = .error e) :
    ∃ r, e = .reference r := by
  unfold storedValue at h
  split at h
  · cases heval : d.root.evaluateImmediate (d.sections ++ [key]) _ with
    | ok stored =>
      rw [heval] at h
      cases h
    | error r =>
      rw [heval] at h
      cases h
      exact ⟨_, rfl⟩
  · cases h

/-- An assignment fails for a reference that cannot be read, for one that cannot be evaluated, or
because its key is protected. -/
theorem applyAssign_eq_error (hd : d.IsOpen)
    (h : d.applyAssign frames offset marker key op raw = .error e) :
    (∃ x, Template.parse raw = .error x ∧
        e = .malformed (.badReference x) (d.origin frames offset)) ∨
      (∃ r, e = .reference r) ∨
      e = .writeProtection (.keyNotWritable key) (d.origin frames offset) := by
  -- The value is read, then evaluated, then stored; one of these steps is the first to fail.
  rw [applyAssign] at h
  rcases Except.bind_eq_error_iff.mp h with hvalue | ⟨value, -, h⟩
  · cases hparse : Template.parse raw with
    | ok value =>
      rw [hparse] at hvalue
      cases hvalue
    | error x =>
      rw [hparse] at hvalue
      cases hvalue
      exact Or.inl ⟨x, rfl, rfl⟩
  · rcases Except.bind_eq_error_iff.mp h with hstored | ⟨stored, -, h⟩
    · exact Or.inr (Or.inl (storedValue_eq_error hstored))
    · obtain ⟨s, cause, -, hcause, rfl⟩ := writeOpen_eq_error hd h
      rw [Except.map_eq_error_iff] at hcause
      rw [Section.eq_of_setAt_eq_error hcause]
      exact Or.inr (Or.inr rfl)

/-! ## Included documents -/

/-- A tree cannot be absorbed only if a key of the open section is protected. -/
theorem absorb_eq_error (hd : d.IsOpen) (h : d.absorb origin writable included = .error e) :
    ∃ cause, e = .writeProtection cause origin := by
  obtain ⟨s, cause, -, -, he⟩ := writeOpen_eq_error hd h
  exact ⟨cause, he⟩

end Draft

namespace Session

variable {fs : FileSystem} {d : Draft} {frames : List Frame} {offset : Nat}
  {name argument : String} {fault : Option Nat} {e : ParseError}

/-- What a command asks for is refused if there is no such command, if the file cannot be read, or
if it is being read already. -/
theorem requested_eq_error (h : requested fs d frames offset name argument = .error e) :
    (grantsWriting? name = none ∧
        e = .malformed (.unknownCommand name) (d.origin frames offset)) ∨
      (∃ writable cause, grantsWriting? name = some writable ∧
        fs.fetch (Path.join (Path.parent d.path) argument) = .error cause ∧
        e = .fileAccess (Path.join (Path.parent d.path) argument) cause
          (d.origin frames offset)) ∨
      ∃ writable target text, grantsWriting? name = some writable ∧
        fs.fetch (Path.join (Path.parent d.path) argument) = .ok (target, text) ∧
        e = .cyclicInclude target (d.origin frames offset) := by
  unfold requested at h
  split at h
  · rename_i hname
    cases h
    exact Or.inl ⟨hname, rfl⟩
  · rename_i writable hname
    dsimp only at h
    split at h
    · rename_i cause hfetch
      cases h
      exact Or.inr (Or.inl ⟨writable, cause, hname, hfetch, rfl⟩)
    · rename_i target text hfetch
      split at h
      · cases h
        exact Or.inr (Or.inr ⟨writable, target, text, hname, hfetch, rfl⟩)
      · cases h

/-- A document that ends well hands out the tree that it has built. -/
theorem eq_root_of_ended {root : Section} (h : ended frames fault d = .ok root) :
    root = d.root := by
  unfold ended at h
  split at h
  · cases h
    rfl
  · cases h

/-- A document that ends badly has a place that is no item. -/
theorem ended_eq_error (h : ended frames fault d = .error e) :
    ∃ offset, fault = some offset ∧ e = .malformed .malformed (d.origin frames offset) := by
  unfold ended at h
  split at h
  · cases h
  · cases h
    exact ⟨_, rfl, rfl⟩

end Session

end LayeredConfig
