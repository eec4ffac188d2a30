import LayeredConfig.Proofs.Section.Merge
import LayeredConfig.Session.Parse

/-!
# What applying an item does

A successful item has changed the open section of its draft in one of three ways: a header has
entered a section below it, an assignment has written a key of it, or a command has merged an
included tree into it. The equations of this file say so, with the conditions on success, and
everything that holds of a whole document is derived from them.
-/

namespace LayeredConfig

variable {d d' : Draft} {frames : List Frame} {offset opening closing : Nat} {name key : String}
  {origin : Origin} {marker : Option Marker} {op : AssignOp} {raw : String}
  {writable : Bool} {included root : Section}

namespace Draft

/-! ## Drafts -/

/-- A write to the open section is an update along its path, which succeeds where it can be
followed. -/
theorem writeOpen_eq_ok_iff {f : Section → Except SectionError Section} :
    d.writeOpen origin f = .ok d' ↔
      ∃ root, Section.UpdatesAt f d.sections d.root root ∧ d' = { d with root } := by
  simp only [← Section.updatesAt_mapError_iff (f := f) (h := (ParseError.writeProtection · origin))]
  unfold writeOpen updateOpen Section.UpdatesAt
  cases d.root.updateAt d.sections
      (fun s => (f s).mapError (ParseError.writeProtection · origin)) with
  | none => simp
  | some result =>
    simp only [Except.map_eq_ok_iff, Option.some.injEq]
    exact exists_congr fun root => and_congr_right fun _ => eq_comm

/-- The attributes of a section that is entered again: its permission is withdrawn. -/
def reentered (origin : Origin) (attrs : KeyAttrs) : KeyAttrs :=
  { flags := { attrs.flags with writable := false }, history := attrs.history.push origin }

/-- What becomes of the entry at the name of a header: a section is entered again, which final ones
refuse, and anything else is overwritten by an empty section. -/
inductive Entered (name : String) (origin : Origin) : Option Entry → Entry → Prop
  | again {sub : Section} {attrs : KeyAttrs} (notFinal : attrs.flags.final = false) :
      Entered name origin (some ⟨.subsection sub, attrs⟩)
        ⟨.subsection sub, reentered origin attrs⟩
  | fresh {old : Option Entry} {e : Entry}
      (noSection : old.any (fun o => o.value.isSubsection) = false)
      (overwritten : Section.Overwritten (.subsection (.named name)) {} origin old e) :
      Entered name origin old e

/-- A header for a name without a section writes an empty one, as an assignment would. -/
theorem enter_of_noSection {s : Section}
    (h : (s.entries.get? name).any (fun o => o.value.isSubsection) = false) :
    enter s name origin = s.setAt name (.subsection (.named name)) origin := by
  rw [enter]
  split
  · rename_i sub attrs hget
    simp [hget] at h
  · rfl

/-- A header for a section that is there records its origin, unless the section is final. -/
theorem enter_of_subsection {s sub : Section} {attrs : KeyAttrs}
    (h : s.entries.get? name = some ⟨.subsection sub, attrs⟩) :
    enter s name origin = if attrs.flags.final then .error (.sectionNotWritable name)
      else .ok (s.modifyAttrs name (reentered origin)) := by
  rw [enter, h]
  rfl

/-- What a header changes in the section around it: the entry of its name, to what `Entered` allows,
and nothing else. -/
theorem enter_alters (name : String) (origin : Origin) :
    Section.Alters (fun s s' => enter s name origin = .ok s') name (Entered name origin) := by
  have hfresh := Section.setAt_alters name (.subsection (.named name)) origin
  have hagain {s sub : Section} {attrs : KeyAttrs}
      (hget : s.entries.get? name = some ⟨.subsection sub, attrs⟩) :
      s.Writes name ⟨.subsection sub, reentered origin attrs⟩
        (s.modifyAttrs name (reentered origin)) :=
    .of_modify hget fun e => { e with attrs := reentered origin e.attrs }
  -- Both directions split on whether there is a section of this name: then its history grows, and
  -- otherwise an empty one is written.
  constructor
  · intro s s' h
    by_cases hs : (s.entries.get? name).any (fun o => o.value.isSubsection) = true
    · obtain ⟨⟨value, attrs⟩, hget, hvalue⟩ := (Option.any_eq_true _ _).mp hs
      obtain ⟨sub, rfl⟩ := Value.isSubsection_iff.mp hvalue
      rw [enter_of_subsection hget] at h
      split at h
      · cases h
      · rename_i notFinal
        cases h
        rw [hget]
        exact ⟨_, .again (Bool.not_eq_true _ ▸ notFinal), hagain hget⟩
    · rw [Bool.not_eq_true] at hs
      rw [enter_of_noSection hs] at h
      obtain ⟨e, he, hwrites⟩ := hfresh.writes h
      exact ⟨e, .fresh hs he, hwrites⟩
  · intro s e he
    generalize hold : s.entries.get? name = old at he
    cases he with
    | @again sub attrs notFinal =>
      refine ⟨_, ?_, hagain hold⟩
      rw [enter_of_subsection hold, notFinal]
      rfl
    | fresh noSection overwritten =>
      subst hold
      obtain ⟨s', hs', hwrites⟩ := hfresh.succeeds overwritten
      exact ⟨s', (enter_of_noSection noSection).trans hs', hwrites⟩

/-- A header succeeds if its brackets are balanced, if it is at most one level below the open
section, and if its section can be entered. -/
theorem applyHeader_eq_ok_iff :
    d.applyHeader frames offset opening closing name = .ok d' ↔
      opening = closing ∧ opening ≤ d.sections.length + 1 ∧
        ∃ root, Section.UpdatesAt
            (fun parent => enter parent name
              ({ d with sections := d.sections.take (opening - 1) }.origin frames offset))
            (d.sections.take (opening - 1)) d.root root ∧
          d' = { d with root, sections := d.sections.take (opening - 1) ++ [name] } := by
  unfold applyHeader
  by_cases hbalanced : opening = closing
  · by_cases hdepth : opening > d.sections.length + 1
    · rw [if_neg (not_not_intro hbalanced), if_pos hdepth]
      exact ⟨nofun, fun h => absurd h.2.1 (by omega)⟩
    · rw [if_neg (not_not_intro hbalanced), if_neg hdepth]
      -- The brackets and the depth are right, so that the update of the tree decides.
      simp only [Except.map_eq_ok_iff, writeOpen_eq_ok_iff]
      constructor
      · rintro ⟨_, ⟨root, hroot, rfl⟩, rfl⟩
        exact ⟨hbalanced, by omega, root, hroot, rfl⟩
      · rintro ⟨-, -, root, hroot, rfl⟩
        exact ⟨_, ⟨root, hroot, rfl⟩, rfl⟩
  · rw [if_pos hbalanced]
    exact ⟨nofun, fun h => absurd h.1 hbalanced⟩

/-- An assignment succeeds if its text is a template, if it has a value to store, and if the key can
be written. -/
theorem applyAssign_eq_ok_iff :
    d.applyAssign frames offset marker key op raw = .ok d' ↔
      ∃ value stored, Template.parse raw = .ok value ∧
        d.storedValue (d.origin frames offset) key op value = .ok stored ∧
        ∃ root, Section.UpdatesAt
            (fun s => (s.setAt key (.scalar stored) (d.origin frames offset)).map
              (·.modifyFlags key fun _ => markedFlags marker)) d.sections d.root root ∧
          d' = { d with root } := by
  simp only [applyAssign, Except.bind_eq_ok_iff, Except.mapError_eq_ok_iff, writeOpen_eq_ok_iff]
  constructor
  · rintro ⟨value, hvalue, stored, hstored, hroot⟩
    exact ⟨value, stored, hvalue, hstored, hroot⟩
  · rintro ⟨value, stored, hvalue, hstored, hroot⟩
    exact ⟨value, hvalue, stored, hstored, hroot⟩

/-- Absorbing a tree merges it into the open section, with all of its keys writable or not. -/
theorem absorb_eq_ok_iff :
    d.absorb origin writable included = .ok d' ↔
      ∃ root, Section.UpdatesAt (fun s => s.merge (included.setWritableDeep writable))
          d.sections d.root root ∧ d' = { d with root } :=
  writeOpen_eq_ok_iff

end Draft

/-! ## Sessions -/

namespace Session

variable {fs : FileSystem} {parse : (path text : String) → SessionM Section} {s : Session}
  {placed : PlacedItem} {items : List PlacedItem} {argument path text : String} {α β : Type}

/-- Whether a part of a parse succeeds, and with what result. -/
def outcome (m : SessionM α) (s : Session) : Except ParseError α :=
  (m.run s).1

/-- A result that needs no session leaves it as it is. -/
theorem run_liftExcept (x : Except ParseError α) (s : Session) :
    (liftExcept x : SessionM α).run s = (x, s) := by
  cases x <;> rfl

/-- A failed call ends the run with the session that it leaves. -/
theorem run_bind (m : SessionM α) (f : α → SessionM β) (s : Session) :
    (m >>= f).run s = match m.run s with
      | (.ok a, s') => (f a).run s'
      | (.error e, s') => (.error e, s') := by
  simp only [ExceptT.run, bind, ExceptT.bind, ExceptT.mk, StateT.bind]
  generalize m s = result
  obtain ⟨r, s'⟩ := result
  cases r <;> rfl

/-- Two calls succeed if the first does and the second does in the session that the first leaves. -/
theorem outcome_bind_eq_ok_iff {m : SessionM α} {f : α → SessionM β} {b : β} :
    outcome (m >>= f) s = .ok b ↔
      ∃ a, outcome m s = .ok a ∧ outcome (f a) (m.run s).2 = .ok b := by
  unfold outcome
  rw [run_bind]
  cases m.run s with
  | mk r s' => cases r <;> simp

/-- The first item is applied first, and the others in the session that it leaves. -/
theorem outcome_foldlM_cons_eq_ok_iff {f : Draft → PlacedItem → SessionM Draft} :
    outcome ((placed :: items).foldlM f d) s = .ok d' ↔
      ∃ d₁, outcome (f d placed) s = .ok d₁ ∧
        outcome (items.foldlM f d₁) ((f d placed).run s).2 = .ok d' := by
  rw [List.foldlM_cons, outcome_bind_eq_ok_iff]

/-- No items leave the draft as it is. -/
theorem outcome_foldlM_nil_eq_ok_iff {f : Draft → PlacedItem → SessionM Draft} :
    outcome (([] : List PlacedItem).foldlM f d) s = .ok d' ↔ d' = d :=
  ⟨fun h => (Except.ok.inj h).symm, fun h => h ▸ rfl⟩

/-! ## Items -/

/-- A header is applied within the document and leaves the session alone. -/
theorem run_applyItem_header :
    (applyItem fs parse d ⟨offset, .header opening closing name⟩).run s =
      (d.applyHeader s.frames offset opening closing name, s) :=
  run_liftExcept _ s

/-- An assignment is applied within the document and leaves the session alone. -/
theorem run_applyItem_assign :
    (applyItem fs parse d ⟨offset, .assign marker key op raw⟩).run s =
      (d.applyAssign s.frames offset marker key op raw, s) :=
  run_liftExcept _ s

/-- Looking at the session changes nothing. -/
theorem run_get_bind (f : Session → SessionM α) (s : Session) :
    ((get : SessionM Session) >>= f).run s = (f s).run s := rfl

/-- What a command asks for: whether the keys that it brings in become writable, and the path and
the text of the document. A document that is being read already is refused. -/
def requested (fs : FileSystem) (d : Draft) (frames : List Frame) (offset : Nat)
    (name argument : String) : Except ParseError (Bool × String × String) :=
  match grantsWriting? name with
  | none => .error (.malformed (.unknownCommand name) (d.origin frames offset))
  | some writable =>
    let target := Path.join (Path.parent d.path) argument
    match fs.fetch target with
    | .error e => .error (.fileAccess target e (d.origin frames offset))
    | .ok (path, text) =>
      if (d.path :: frames.map (·.path)).any (Path.same path) then
        .error (.cyclicInclude path (d.origin frames offset))
      else .ok (writable, path, text)

/-- A command asks for a document if it is a known one, and the document can be read and is not
being read already. -/
theorem requested_eq_ok_iff :
    requested fs d frames offset name argument = .ok (writable, path, text) ↔
      grantsWriting? name = some writable ∧
        fs.fetch (Path.join (Path.parent d.path) argument) = .ok (path, text) ∧
        (d.path :: frames.map (·.path)).any (Path.same path) = false := by
  -- The three conditions are checked one after the other, and each has an error of its own.
  unfold requested
  cases grantsWriting? name with
  | none =>
    constructor
    · intro h
      cases h
    · rintro ⟨hname, -⟩
      cases hname
  | some writable' =>
    dsimp only
    cases fs.fetch (Path.join (Path.parent d.path) argument) with
    | error cause =>
      constructor
      · intro h
        cases h
      · rintro ⟨-, hfetch, -⟩
        cases hfetch
    | ok target =>
      obtain ⟨path', text'⟩ := target
      dsimp only
      split
      · rename_i hsame
        constructor
        · intro h
          cases h
        · rintro ⟨-, hfetch, hfresh⟩
          cases hfetch
          rw [hsame] at hfresh
          cases hfresh
      · rename_i hfresh
        constructor
        · intro h
          cases h
          exact ⟨rfl, rfl, Bool.eq_false_iff.mpr hfresh⟩
        · rintro ⟨hname, hfetch, -⟩
          cases hname
          cases hfetch
          rfl

/-- A command either is refused before its file is parsed, or parses the file with one more frame
and absorbs the result. -/
theorem run_applyItem_command :
    (applyItem fs parse d ⟨offset, .command name argument⟩).run s =
      match requested fs d s.frames offset name argument with
      | .error e => (.error e, s)
      | .ok (writable, path, text) =>
        (following ⟨d.path, d.position offset⟩ (parse path text) >>= fun included =>
          liftExcept (d.absorb (d.origin s.frames offset) writable included) : SessionM Draft).run
            s := by
  change (applyCommand fs parse d offset name argument).run s = _
  -- Both sides ask for the name first, then for the file, and last whether it is on the way here.
  rw [applyCommand, run_get_bind, requested]
  cases grantsWriting? name with
  | none => rfl
  | some writable =>
    cases hfetch : fs.fetch (Path.join (Path.parent d.path) argument) with
    | error e =>
      simp only [hfetch]
      rfl
    | ok file =>
      simp only [hfetch]
      split <;> rfl

/-- A command that succeeds has parsed the document it asks for and merged its tree in. -/
theorem outcome_applyItem_command_eq_ok
    (h : outcome (applyItem fs parse d ⟨offset, .command name argument⟩) s = .ok d') :
    ∃ writable path text included,
      requested fs d s.frames offset name argument = .ok (writable, path, text) ∧
      outcome (following ⟨d.path, d.position offset⟩ (parse path text)) s = .ok included ∧
      d.absorb (d.origin s.frames offset) writable included = .ok d' := by
  rw [outcome, run_applyItem_command] at h
  cases hrequested : requested fs d s.frames offset name argument with
  | error e =>
    rw [hrequested] at h
    cases h
  | ok request =>
    obtain ⟨writable, path, text⟩ := request
    rw [hrequested] at h
    obtain ⟨included, hincluded, habsorb⟩ := outcome_bind_eq_ok_iff.mp h
    rw [outcome, run_liftExcept] at habsorb
    exact ⟨writable, path, text, included, rfl, hincluded, habsorb⟩

end Session

end LayeredConfig
