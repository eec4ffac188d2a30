import LayeredConfig.Proofs.Session.Completion
import LayeredConfig.Proofs.Session.Layering
import LayeredConfig.Proofs.Session.Mentions

/-!
# Which plain documents are accepted

A plain document is accepted exactly if its headers nest well and what it mentions is consistent,
and then its mapping holds what it mentions (`parseText_describes_mentions`). The draft of the
document `Reflects` at every point what has been mentioned up to there. Each statement keeps this,
and it is refused exactly when it does not fit where it stands or contradicts an earlier one: this
is what write protection comes to, since every key of such a draft is protected.
-/

namespace LayeredConfig

namespace Section

variable {s : Section} {key : String} {e : Entry} {origin : Origin}

/-- What the entries of a plain document have in common: they are settled, and not temporary. -/
def Lasting (isSubsection : Bool) (flags : Flags) : Prop :=
  Quiet isSubsection flags ∧ flags.temporary = false

/-- Protected flags without the temporary mark are the flags of a lasting scalar. -/
theorem lasting_of_isProtected {flags : Flags} (h : flags.isProtected = true)
    (htemporary : flags.temporary = false) : Lasting false flags :=
  ⟨⟨h, nofun⟩, htemporary⟩

/-- A key can be assigned if it is not there. -/
theorem overwritten_iff_of_lasting {value : Value} {flags : Flags} (hs : s.Entrywise Lasting) :
    Overwritten value flags origin (s.entries.get? key) e ↔
      s.entries.get? key = none ∧
        e = ⟨value, { flags, history := ({} : Provenance).push origin }⟩ := by
  cases hget : s.entries.get? key with
  | none => simp [overwritten_none_iff]
  | some old =>
    have hprotected : old.attrs.isProtected = true := (hs.entry hget).1.1
    constructor
    · rintro ⟨hfree, -⟩
      rw [Option.any_some, hprotected] at hfree
      cases hfree
    · rintro ⟨hnone, -⟩
      cases hnone

/-- A name can be entered if it is not there, or if it is that of a section. -/
theorem entered_iff_of_lasting (hs : s.Entrywise Lasting) :
    Draft.Entered key origin (s.entries.get? key) e ↔
      (s.entries.get? key = none ∧
        e = ⟨.subsection (.named key), { history := ({} : Provenance).push origin }⟩) ∨
      ∃ sub attrs, s.entries.get? key = some ⟨.subsection sub, attrs⟩ ∧
        e = ⟨.subsection sub, Draft.reentered origin attrs⟩ := by
  cases hget : s.entries.get? key with
  | none => simp [Draft.entered_none_iff]
  | some old =>
    obtain ⟨value, attrs⟩ := old
    obtain ⟨hprotected, hflags⟩ := (hs.entry hget).1
    cases value with
    | scalar v =>
      -- a lasting scalar is protected, so that no header can replace it
      rw [Draft.entered_iff_overwritten rfl]
      constructor
      · rintro ⟨hfree, -⟩
        rw [Option.any_some, KeyAttrs.isProtected, hprotected] at hfree
        cases hfree
      · rintro (⟨hnone, -⟩ | ⟨sub, attrs', hsub, -⟩)
        · cases hnone
        · cases hsub
    | subsection sub =>
      have hnotFinal : attrs.flags.final = false := by
        rw [show attrs.flags = {} from hflags rfl]
      rw [Draft.entered_some_iff rfl hnotFinal]
      constructor
      · rintro rfl
        exact Or.inr ⟨sub, attrs, rfl, rfl⟩
      · rintro (⟨hnone, -⟩ | ⟨sub', attrs', hsub, rfl⟩)
        · cases hnone
        · cases hsub
          rfl

/-! ## One more mention -/

variable {ms : List Mention} {root : Section} {path : List String} {x : String} {flags : Flags}

/-- The node under a key of an open section is that of the entry which the section holds there. -/
theorem nodeAt?_concat (hs : root.sectionAt? path = some s) (key : String) :
    root.nodeAt? (path ++ [key]) = (s.entries.get? key).map (·.value.node) := by
  rw [nodeAt?_append hs, nodeAt?_cons, Section.get?]
  cases s.entries.get? key with
  | none => rfl
  | some e =>
    obtain ⟨value, attrs⟩ := e
    cases value <;> rfl

/-- Entering a name mentions its path as that of a section. The path has not been assigned. -/
theorem shows_of_entered (hroot : root.Everywhere (Entrywise Lasting)) (h : Shows ms root)
    (hs : root.sectionAt? path = some s)
    (he : Draft.Entered key origin (s.entries.get? key) e) :
    path ++ [key] ∉ assignedPaths ms ∧
      Shows (ms ++ [⟨path ++ [key], none⟩]) (root.putAt path key e) := by
  have hnode := nodeAt?_concat hs key
  have hbelow : ∀ q, root.nodeAt? (path ++ key :: q) = (s.get? key).bind (·.nodeAt? q) :=
    fun q => nodeAt?_append hs (key :: q)
  rcases (entered_iff_of_lasting (hroot.sectionAt? hs).holds).mp he with
    ⟨hget, rfl⟩ | ⟨sub, attrs, hget, rfl⟩
  · -- a new name: the section that is put there is empty, and so is what was below the path
    rw [hget, Option.map_none] at hnode
    obtain ⟨hassigned, -⟩ :=
      (h.nodeAt?_eq_none_iff (List.concat_ne_nil key path)).mp hnode
    refine ⟨hassigned, h.putAt hs hassigned nofun ?_ fun q hq => ?_⟩
    · rw [h.childrenOf_eq_nil hnode]
      rfl
    · rw [hbelow, Section.get?, hget]
      obtain ⟨k, q, rfl⟩ := List.exists_cons_of_ne_nil hq
      rfl
  · -- a section entered again: nothing changes but its attributes
    rw [hget, Option.map_some] at hnode
    have hassigned : path ++ [key] ∉ assignedPaths ms := by
      rw [h.mem_assignedPaths_iff, hnode]
      rintro ⟨v, hv⟩
      cases hv
    obtain ⟨-, hkeys⟩ := (h.keys_iff _ _).mp hnode
    refine ⟨hassigned, h.putAt hs hassigned nofun (congrArg Node.keys hkeys) fun q _ => ?_⟩
    rw [hbelow, Section.get?, hget]
    rfl

/-- A header can be entered under any name that no assignment has taken. -/
theorem exists_entered (hroot : root.Everywhere (Entrywise Lasting)) (h : Shows ms root)
    (hs : root.sectionAt? path = some s) (hassigned : path ++ [key] ∉ assignedPaths ms)
    (origin : Origin) : ∃ e, Draft.Entered key origin (s.entries.get? key) e := by
  simp only [entered_iff_of_lasting (hroot.sectionAt? hs).holds]
  cases hget : s.entries.get? key with
  | none => exact ⟨_, Or.inl ⟨rfl, rfl⟩⟩
  | some old =>
    obtain ⟨value, attrs⟩ := old
    cases value with
    | subsection sub => exact ⟨_, Or.inr ⟨sub, attrs, rfl, rfl⟩⟩
    | scalar v =>
      refine absurd (h.mem_assignedPaths_iff.mpr ⟨v, ?_⟩) hassigned
      rw [nodeAt?_concat hs, hget]
      rfl

/-- Assigning a text mentions the path of its key, which is new. -/
theorem shows_of_overwritten (hroot : root.Everywhere (Entrywise Lasting)) (h : Shows ms root)
    (hs : root.sectionAt? path = some s)
    (he : Overwritten (.scalar (.text x)) flags origin (s.entries.get? key) e) :
    (path ++ [key] ∉ assignedPaths ms ∧ path ++ [key] ∉ openedPaths ms) ∧
      Shows (ms ++ [⟨path ++ [key], some x⟩]) (root.putAt path key e) := by
  obtain ⟨hget, rfl⟩ := (overwritten_iff_of_lasting (hroot.sectionAt? hs).holds).mp he
  have hnode := nodeAt?_concat hs key
  rw [hget, Option.map_none] at hnode
  have hnew := (h.nodeAt?_eq_none_iff (List.concat_ne_nil key path)).mp hnode
  refine ⟨hnew, h.putAt hs hnew.1 (fun _ => hnew.2) rfl fun q hq => ?_⟩
  rw [nodeAt?_append hs, nodeAt?_cons, Section.get?, hget]
  obtain ⟨k, q, rfl⟩ := List.exists_cons_of_ne_nil hq
  rfl

/-- A key that was neither assigned nor opened can be assigned. -/
theorem exists_overwritten (hroot : root.Everywhere (Entrywise Lasting)) (h : Shows ms root)
    (hs : root.sectionAt? path = some s) (hassigned : path ++ [key] ∉ assignedPaths ms)
    (hopened : path ++ [key] ∉ openedPaths ms) (value : Value) (flags : Flags) (origin : Origin) :
    ∃ e, Overwritten value flags origin (s.entries.get? key) e := by
  have hnode := (h.nodeAt?_eq_none_iff (List.concat_ne_nil key path)).mpr ⟨hassigned, hopened⟩
  rw [nodeAt?_concat hs, Option.map_eq_none_iff] at hnode
  exact ⟨_, (overwritten_iff_of_lasting (hroot.sectionAt? hs).holds).mpr ⟨hnode, rfl⟩⟩

end Section

/-! ## Items -/

/-- The statements of a plain document are its headers and those of its deferred assignments whose
value is plain text and whose key is not marked as temporary. -/
theorem Item.statement?_eq_some {item : Item} {st : Statement} (h : item.statement? = some st) :
    (∃ opening closing name, item = .header opening closing name ∧
      st = .header opening closing name) ∨
    ∃ marker key raw value, item = .assign marker key .deferred raw ∧
      marker ≠ some .temporary ∧ Template.parse raw = .ok (.text value) ∧
      st = .assign key value := by
  cases item with
  | header opening closing name =>
    cases h
    exact Or.inl ⟨opening, closing, name, rfl, rfl⟩
  | command name argument => cases h
  | assign marker key op raw =>
    cases op with
    | immediate => cases h
    | deferred =>
      rw [statement?] at h
      split at h
      · cases h
      · next hlasting =>
        split at h
        · next value hraw =>
          cases h
          exact Or.inr ⟨marker, key, raw, value, rfl, hlasting, hraw, rfl⟩
        · cases h

/-- Every item that is a statement of a plain document is a lasting one. -/
theorem Item.isLasting_of_statement? {item : Item} {st : Statement}
    (h : item.statement? = some st) : item.IsLasting := by
  rcases statement?_eq_some h with ⟨_, _, _, rfl, -⟩ | ⟨_, _, _, _, rfl, hlasting, -⟩
  · exact .header
  · exact .assign hlasting

namespace Session

variable {fs : FileSystem} {parse : (path text : String) → SessionM Section} {s : Session}
  {d d' : Draft} {placed : PlacedItem} {items : List PlacedItem} {ms : List Mention}
  {opened : List String} {st : Statement} {statements : List Statement} {frames : List Frame}
  {offset opening closing : Nat} {name key raw value : String} {marker : Option Marker}

/-- The draft is at the point of a plain document at which some mentions have been made and some
sections are open. -/
structure Reflects (ms : List Mention) (opened : List String) (d : Draft) : Prop where
  sections : d.sections = opened
  lasting : d.root.Everywhere (Section.Entrywise Section.Lasting)
  shows : Shows ms d.root
  opened : opened = [] ∨ ⟨opened, none⟩ ∈ ms

/-- The draft that a document starts with reflects a document in which nothing was mentioned. -/
theorem reflects_initial (path source : String) : Reflects [] [] { path, source } := by
  refine ⟨rfl, Section.entrywise_of_isEmpty none, ⟨fun p v => ?_, fun p keys => ?_⟩, Or.inl rfl⟩
  · constructor
    · intro h
      cases p <;> cases h
    · rintro ⟨x, -, hx⟩
      cases hx
  · constructor
    · intro h
      cases p with
      | nil =>
        cases h
        exact ⟨Or.inl rfl, rfl⟩
      | cons k p => cases h
    · rintro ⟨rfl | hp, rfl⟩
      · rfl
      · cases hp

namespace Reflects

/-- The keys of a draft that reflects mentions are distinct on every level. -/
theorem keysDistinct (h : Reflects ms opened d) : d.root.Everywhere Section.KeysDistinct :=
  h.lasting.imp fun _ hs => hs.keysDistinct

/-- Each of the open sections is there. -/
theorem exists_sectionAt?_take (h : Reflects ms opened d) (n : Nat) :
    ∃ s, d.root.sectionAt? (opened.take n) = some s := by
  obtain ⟨last, hlast, -⟩ :=
    Section.nodeAt?_eq_keys_iff.mp ((h.shows.keys_iff opened _).mpr ⟨h.opened, rfl⟩)
  rw [← List.take_append_drop n opened, Section.sectionAt?_append] at hlast
  obtain ⟨s, hs, -⟩ := Option.bind_eq_some_iff.mp hlast
  exact ⟨s, hs⟩

/-- A header is accepted exactly if it fits the open sections and its path is not assigned, and then
it is reflected as a mention without a value. -/
theorem applyHeader (h : Reflects ms opened d) (frames : List Frame) (offset : Nat) :
    ((∃ d', d.applyHeader frames offset opening closing name = .ok d') ↔
      (Statement.header opening closing name).Fits opened ∧
        opened.take (opening - 1) ++ [name] ∉ assignedPaths ms) ∧
    ∀ d', d.applyHeader frames offset opening closing name = .ok d' →
      Reflects (ms ++ [⟨opened.take (opening - 1) ++ [name], none⟩])
        (opened.take (opening - 1) ++ [name]) d' := by
  obtain ⟨s, hs⟩ := h.exists_sectionAt?_take (opening - 1)
  obtain rfl := h.sections
  -- keys are distinct, so that an update at the open path is one entry put there
  have hupdates := fun (origin : Origin) (root : Section) =>
    (Draft.enter_alters name origin).updatesAt_iff (r := root) h.keysDistinct hs
  refine ⟨⟨?_, ?_⟩, ?_⟩
  · rintro ⟨d', hd'⟩
    obtain ⟨hbalanced, hdepth, root, hroot, -⟩ := Draft.applyHeader_eq_ok_iff.mp hd'
    obtain ⟨e, he, -⟩ := (hupdates _ root).mp hroot
    exact ⟨⟨hbalanced, hdepth⟩, (Section.shows_of_entered h.lasting h.shows hs he).1⟩
  · rintro ⟨⟨hbalanced, hdepth⟩, hassigned⟩
    obtain ⟨e, he⟩ := Section.exists_entered h.lasting h.shows hs hassigned _
    exact ⟨_, Draft.applyHeader_eq_ok_iff.mpr
      ⟨hbalanced, hdepth, _, (hupdates _ _).mpr ⟨e, he, rfl⟩, rfl⟩⟩
  · intro d' hd'
    obtain ⟨-, -, root, hroot, rfl⟩ := Draft.applyHeader_eq_ok_iff.mp hd'
    obtain ⟨e, he, rfl⟩ := (hupdates _ root).mp hroot
    refine ⟨rfl, ?_, (Section.shows_of_entered h.lasting h.shows hs he).2, Or.inr (by simp)⟩
    refine Section.entrywise_of_updatesAt (fun parent parent' hparent hentered => ?_) h.lasting
      hroot
    obtain ⟨e, he, hwrites⟩ := (Draft.enter_alters name _).writes hentered
    refine Section.entrywise_of_entered ⟨⟨rfl, fun _ => rfl⟩, rfl⟩ (fun flags hflags => ?_) hparent
      he hwrites
    rw [hflags.1.2 rfl]
    exact ⟨⟨rfl, fun _ => rfl⟩, rfl⟩

/-- No mark but the temporary one makes a key temporary. -/
theorem markedFlags_temporary {marker : Option Marker} (h : marker ≠ some .temporary) :
    (Draft.markedFlags marker).temporary = false := by
  match marker, h with
  | none, _ => rfl
  | some .mandatory, _ => rfl
  | some .final, _ => rfl
  | some .temporary, h => exact absurd rfl h

/-- A plain assignment is accepted exactly if its path was neither assigned nor opened, and then it
is reflected as a mention with its value. -/
theorem applyAssign (h : Reflects ms opened d) (frames : List Frame) (offset : Nat)
    (hlasting : marker ≠ some .temporary) (hraw : Template.parse raw = .ok (.text value)) :
    ((∃ d', d.applyAssign frames offset marker key .deferred raw = .ok d') ↔
      opened ++ [key] ∉ assignedPaths ms ∧ opened ++ [key] ∉ openedPaths ms) ∧
    ∀ d', d.applyAssign frames offset marker key .deferred raw = .ok d' →
      Reflects (ms ++ [⟨opened ++ [key], some value⟩]) opened d' := by
  obtain ⟨s, hs⟩ := h.exists_sectionAt?_take opened.length
  rw [List.take_length] at hs
  obtain rfl := h.sections
  have halters := Section.setAt_modifyFlags_alters key (.scalar (.text value))
    (d.origin frames offset) (Draft.markedFlags marker)
  have hupdates := fun (root : Section) => halters.updatesAt_iff (r := root) h.keysDistinct hs
  -- the value is plain text, so that the assignment stores it as it is
  have hstep : ∀ d', d.applyAssign frames offset marker key .deferred raw = .ok d' ↔
      ∃ root, Section.UpdatesAt (fun s =>
        (s.setAt key (.scalar (.text value)) (d.origin frames offset)).map
          (·.modifyFlags key fun _ => Draft.markedFlags marker)) d.sections d.root root ∧
        d' = { d with root } := by
    intro d'
    rw [Draft.applyAssign_eq_ok_iff]
    constructor
    · rintro ⟨v, stored, hv, hstored, hroot⟩
      rw [hraw] at hv
      cases hv
      cases hstored
      exact hroot
    · intro hroot
      exact ⟨_, _, hraw, rfl, hroot⟩
  refine ⟨⟨?_, ?_⟩, ?_⟩
  · rintro ⟨d', hd'⟩
    obtain ⟨root, hroot, -⟩ := (hstep d').mp hd'
    obtain ⟨e, he, -⟩ := (hupdates root).mp hroot
    exact (Section.shows_of_overwritten h.lasting h.shows hs he).1
  · rintro ⟨hassigned, hopened⟩
    obtain ⟨e, he⟩ := Section.exists_overwritten h.lasting h.shows hs hassigned hopened _ _ _
    exact ⟨_, (hstep _).mpr ⟨_, (hupdates _).mpr ⟨e, he, rfl⟩, rfl⟩⟩
  · intro d' hd'
    obtain ⟨root, hroot, rfl⟩ := (hstep d').mp hd'
    obtain ⟨e, he, rfl⟩ := (hupdates root).mp hroot
    refine ⟨rfl, ?_, (Section.shows_of_overwritten h.lasting h.shows hs he).2,
      h.opened.imp_right (List.mem_append_left _)⟩
    refine Section.entrywise_of_updatesAt (fun sub sub' hsub hwritten => ?_) h.lasting hroot
    obtain ⟨e, he, hwrites⟩ := halters.writes hwritten
    exact Section.entrywise_of_overwritten rfl
      (Section.lasting_of_isProtected (Draft.markedFlags_isProtected hlasting)
        (markedFlags_temporary hlasting)) hsub he hwrites

/-- One item. It is refused if it does not fit where it stands or contradicts an earlier one. -/
theorem applyItem (h : Reflects ms opened d) (hms : Consistent ms)
    (hst : placed.item.statement? = some st) :
    ((∃ d', outcome (applyItem fs parse d placed) s = .ok d') ↔
      st.Fits opened ∧ Consistent (ms ++ [st.mention opened])) ∧
    ∀ d', outcome (applyItem fs parse d placed) s = .ok d' →
      Reflects (ms ++ [st.mention opened]) (st.opens opened) d' := by
  obtain ⟨offset, item⟩ := placed
  rw [consistent_concat_iff hms]
  rcases Item.statement?_eq_some hst with
    ⟨opening, closing, name, rfl, rfl⟩ | ⟨marker, key, raw, value, rfl, hlasting, hraw, rfl⟩
  · -- a header brings no value, so that the sections that are open do not forbid it
    obtain ⟨hiff, hreflects⟩ := h.applyHeader s.frames offset
    rw [outcome, run_applyItem_header]
    refine ⟨hiff.trans ?_, hreflects⟩
    constructor
    · rintro ⟨hfits, hassigned⟩
      exact ⟨hfits, hassigned, fun hsome => absurd hsome Bool.false_ne_true⟩
    · rintro ⟨hfits, hassigned, -⟩
      exact ⟨hfits, hassigned⟩
  · obtain ⟨hiff, hreflects⟩ := h.applyAssign s.frames offset hlasting hraw
    rw [outcome, run_applyItem_assign]
    refine ⟨hiff.trans ?_, hreflects⟩
    constructor
    · rintro ⟨hassigned, hopened⟩
      exact ⟨trivial, hassigned, fun _ => hopened⟩
    · rintro ⟨-, hassigned, hopened⟩
      exact ⟨hassigned, hopened rfl⟩

/-- All items, one after the other. -/
theorem foldlM (h : Reflects ms opened d) (fs : FileSystem)
    (parse : (path text : String) → SessionM Section) (s : Session) (hms : Consistent ms)
    (hitems : items.mapM (·.item.statement?) = some statements) :
    ((∃ d', outcome (items.foldlM (Session.applyItem fs parse) d) s = .ok d') ↔
      Statement.WellNested opened statements ∧
        Consistent (ms ++ Statement.mentions opened statements)) ∧
    ∀ d', outcome (items.foldlM (Session.applyItem fs parse) d) s = .ok d' →
      ∃ opened', Reflects (ms ++ Statement.mentions opened statements) opened' d' := by
  induction items generalizing ms opened d statements with
  | nil =>
    obtain rfl : [] = statements := Option.some.inj hitems
    simp only [outcome_foldlM_nil_eq_ok_iff]
    rw [Statement.mentions, Statement.WellNested, List.append_nil]
    refine ⟨⟨fun _ => ⟨trivial, hms⟩, fun _ => ⟨d, rfl⟩⟩, ?_⟩
    rintro _ rfl
    exact ⟨opened, h⟩
  | cons placed items ih =>
    rw [List.mapM_cons] at hitems
    obtain ⟨st, hst, hitems⟩ := Option.bind_eq_some_iff.mp hitems
    obtain ⟨rest, hrest, heq⟩ := Option.bind_eq_some_iff.mp hitems
    cases heq
    -- a statement of a plain document leaves the session as it is, so the rest is read in the same
    obtain ⟨hiff, hreflects⟩ := h.applyItem hms hst
    simp only [outcome_foldlM_cons_eq_ok_iff,
      state_of_applyItem (Item.isLasting_of_statement? hst)]
    rw [Statement.mentions, Statement.WellNested, List.append_cons]
    constructor
    · constructor
      · rintro ⟨d', d₁, hd₁, hd'⟩
        obtain ⟨hfits, hconsistent⟩ := hiff.mp ⟨d₁, hd₁⟩
        obtain ⟨hnested, hall⟩ := (ih (hreflects d₁ hd₁) hconsistent hrest).1.mp ⟨d', hd'⟩
        exact ⟨⟨hfits, hnested⟩, hall⟩
      · rintro ⟨⟨hfits, hnested⟩, hall⟩
        obtain ⟨d₁, hd₁⟩ := hiff.mpr ⟨hfits, hall.of_append⟩
        obtain ⟨d', hd'⟩ :=
          (ih (hreflects d₁ hd₁) hall.of_append hrest).1.mpr ⟨hnested, hall⟩
        exact ⟨d', d₁, hd₁, hd'⟩
    · rintro d' ⟨d₁, hd₁, hd'⟩
      obtain ⟨-, hconsistent⟩ := hiff.mp ⟨d₁, hd₁⟩
      exact (ih (hreflects d₁ hd₁) hconsistent hrest).2 d' hd'

/-- There is nothing to evaluate and nothing to drop. -/
theorem finish (h : Reflects ms opened d) : finish d.root = .ok d.root := by
  refine finish_eq_ok_iff.mpr ⟨d.root, ?_, ?_⟩
  · refine Section.evaluateAll_eq_self h.keysDistinct fun p t ht => ?_
    obtain ⟨x, hx, -⟩ := (h.shows.scalar_iff p _).mp (Section.nodeAt?_eq_scalar_iff.mpr ht)
    cases hx
  · exact Section.dropTemporaryDeep_eq_self h.keysDistinct fun p e he =>
      (Section.Entrywise.entryAt? h.lasting he).2

end Reflects

/-! ## Documents -/

variable {mode : Mode} {text path : String} {root : Section}

/-- A document that consists of items up to its end is parsed by applying them. -/
theorem parseText_eq_ok_iff (hfault : (Document.read mode (sourceOf text)).fault = none) :
    LayeredConfig.parseText fs mode text path = .ok root ↔
      ∃ d, outcome ((Document.read mode (sourceOf text)).items.foldlM
          (applyItem fs (parseDocument fs fs.contents.size)) { path, source := sourceOf text })
          { mode } = .ok d ∧ finish d.root = .ok root := by
  have hitem := balanced_applyItem fs (balanced_parseDocument fs fs.contents.size)
  rw [parseText_eq, Except.bind_eq_ok_iff, outcome_parseDocument_succ, readThrough]
  simp only [← outcome_foldlM hitem, Except.bind_eq_ok_iff]
  change (∃ built, (∃ d, _ ∧ ended _ (Document.read mode (sourceOf text)).fault d = _) ∧ _) ↔ _
  simp only [hfault, ended, Except.ok.injEq]
  constructor
  · rintro ⟨_, ⟨d, hd, rfl⟩, hfinish⟩
    exact ⟨d, hd, hfinish⟩
  · rintro ⟨d, hd, hfinish⟩
    exact ⟨d.root, ⟨d, hd, rfl⟩, hfinish⟩

/-- A plain document is accepted exactly if its headers nest well and no path is assigned twice or
both assigned and opened. Its mapping then holds the texts and the sections that it mentions, in the
order of first mention, however often sections are opened again. -/
theorem parseText_describes_mentions (fs : FileSystem) (path : String)
    (hfault : (Document.read mode (sourceOf text)).fault = none)
    (hstatements : (Document.read mode (sourceOf text)).items.mapM (·.item.statement?) =
      some statements) :
    ((∃ root, LayeredConfig.parseText fs mode text path = .ok root) ↔
      Statement.WellNested [] statements ∧ Consistent (Statement.mentions [] statements)) ∧
    ∀ root, LayeredConfig.parseText fs mode text path = .ok root →
      Describes (Statement.mentions [] statements) root.toPlain := by
  obtain ⟨hiff, hreflects⟩ := (reflects_initial path (sourceOf text)).foldlM fs
    (parseDocument fs fs.contents.size) { mode } ⟨List.nodup_nil, nofun⟩ hstatements
  rw [List.nil_append] at hiff hreflects
  simp only [parseText_eq_ok_iff hfault]
  refine ⟨?_, ?_⟩
  · rw [← hiff]
    constructor
    · rintro ⟨root, d, hd, -⟩
      exact ⟨d, hd⟩
    · rintro ⟨d, hd⟩
      obtain ⟨opened, hd'⟩ := hreflects d hd
      exact ⟨d.root, d, hd, hd'.finish⟩
  · rintro root ⟨d, hd, hfinish⟩
    obtain ⟨opened, hd'⟩ := hreflects d hd
    rw [hd'.finish] at hfinish
    cases hfinish
    exact hd'.shows.describes

/-- A document that comes back to a section which it has left. -/
def returning : String :=
  "a = 1\n[s]\nb = 2\n[[t]]\n[u]\n!d = 4\n[s]\nc = 3\n[[t]]\n"

/-- The document that comes back to a section is accepted, and its mapping describes what it
mentions. -/
theorem parseText_describes_mentions_returning :
    ∃ root, LayeredConfig.parseText .empty .config returning "/main" = .ok root ∧
      Describes [⟨["a"], some "1"⟩, ⟨["s"], none⟩, ⟨["s", "b"], some "2"⟩, ⟨["s", "t"], none⟩,
        ⟨["u"], none⟩, ⟨["u", "d"], some "4"⟩, ⟨["s"], none⟩, ⟨["s", "c"], some "3"⟩,
        ⟨["s", "t"], none⟩] root.toPlain := by
  have hfault : (Document.read .config (sourceOf returning)).fault = none := by decide +kernel
  have hstatements : (Document.read .config (sourceOf returning)).items.mapM (·.item.statement?) =
      some [.assign "a" "1", .header 1 1 "s", .assign "b" "2", .header 2 2 "t", .header 1 1 "u",
        .assign "d" "4", .header 1 1 "s", .assign "c" "3", .header 2 2 "t"] := by
    decide +kernel
  obtain ⟨hiff, hdescribes⟩ := parseText_describes_mentions .empty "/main" hfault hstatements
  obtain ⟨root, hroot⟩ := hiff.mpr (by decide)
  exact ⟨root, hroot, hdescribes root hroot⟩

end Session

end LayeredConfig
