import LayeredConfig.Proofs.Session.Entrywise
import LayeredConfig.Proofs.Session.Squares

/-!
# A document on top of a tree

Applying a document to a tree that is there already gives what building it on its own and merging
it into that tree gives. The tree that the document builds on its own is settled throughout, in the
sense of `Settled`, and the open sections are there (`Alone`). This is what every item needs to
commute with the merge, and it is kept by every item, so the items can be moved past the merge one
after the other.
-/

namespace LayeredConfig

/-! ## Two kinds of trees -/

namespace Section

variable {t s s' : Section} {key : String} {e : Entry}

/-- A section as inheriting leaves it, as far as its nested sections are concerned: they are
writable and carry no other flag. Its keys are distinct, which holds of every map that the
operations build. -/
structure Inherited (s : Section) : Prop where
  keysDistinct : s.KeysDistinct
  flags : ∀ {k e}, s.entries.get? k = some e → e.value.isSubsection = true →
    e.attrs.flags = { writable := true }

/-- For a given tree it is enough to look through the entries of its list. -/
theorem inherited_of_toList (hkeys : s.KeysDistinct)
    (hflags : ∀ entry ∈ s.entries.toList, entry.2.value.isSubsection = true →
      entry.2.attrs.flags = { writable := true }) : s.Inherited :=
  ⟨hkeys, fun hget => hflags _ (OrderedMap.mem_of_get? hget)⟩

/-- A section as headers and assignments build it out of nothing: every key is protected, and those
that hold sections carry no flag at all. -/
structure Settled (s : Section) : Prop where
  keysDistinct : s.KeysDistinct
  isProtected : ∀ {k e}, s.entries.get? k = some e → e.attrs.isProtected = true
  flags : ∀ {k e}, s.entries.get? k = some e → e.value.isSubsection = true → e.attrs.flags = {}

/-- What the entries of a settled section have in common. -/
def Quiet (isSubsection : Bool) (flags : Flags) : Prop :=
  flags.isProtected = true ∧ (isSubsection = true → flags = {})

/-- That a section is settled is a property of the flags of its entries. -/
theorem settled_eq : Settled = Entrywise Quiet := by
  funext s
  refine propext ⟨fun hs => ?_, fun hs => ?_⟩
  · exact ⟨hs.keysDistinct, fun hget => ⟨hs.isProtected hget, hs.flags hget⟩⟩
  · exact ⟨hs.keysDistinct, fun hget => (hs.entry hget).1, fun hget => (hs.entry hget).2⟩

/-- A section without entries is settled. -/
theorem settled_of_isEmpty (name : Option String) : Everywhere Settled ⟨name, ∅⟩ :=
  settled_eq ▸ entrywise_of_isEmpty name

/-- If an operation leaves settled what it finds settled, then so does the operation at the end of
a path. -/
theorem settled_of_updatesAt {f : Section → Except ε Section} {path : List String}
    (hf : ∀ s s', s.Everywhere Settled → f s = .ok s' → s'.Everywhere Settled)
    (hs : s.Everywhere Settled) (h : UpdatesAt f path s s') : s'.Everywhere Settled := by
  rw [settled_eq] at hf hs ⊢
  exact entrywise_of_updatesAt hf hs h

/-- An assignment without the mark `~` leaves a settled section settled. -/
theorem settled_of_overwritten {value : Value} {flags : Flags} {origin : Origin}
    (hvalue : value.isSubsection = false) (hflags : flags.isProtected = true)
    (hs : s.Everywhere Settled) (he : Overwritten value flags origin (s.entries.get? key) e)
    (h : Writes s key e s') : s'.Everywhere Settled := by
  rw [settled_eq] at hs ⊢
  exact entrywise_of_overwritten hvalue ⟨hflags, nofun⟩ hs he h

/-- A header leaves a settled section settled, since it takes back permissions and gives none. -/
theorem settled_of_entered {origin : Origin} (hs : s.Everywhere Settled)
    (he : Draft.Entered key origin (s.entries.get? key) e) (h : Writes s key e s') :
    s'.Everywhere Settled := by
  rw [settled_eq] at hs ⊢
  refine entrywise_of_entered ⟨rfl, fun _ => rfl⟩ (fun flags hflags => ?_) hs he h
  rw [hflags.2 rfl]
  exact ⟨rfl, fun _ => rfl⟩

/-! ## The operations of a document -/

/-- A header can be applied before or after the section is merged into an inherited one. -/
theorem commutes_enter (name : String) (origin : Origin) (ht : t.Inherited) (hs : s.Settled) :
    Commutes (fun s s' => Draft.enter s name origin = .ok s') t s := by
  refine (Draft.enter_alters name origin).commutes ht.keysDistinct hs.keysDistinct ?_
  cases hget : s.entries.get? name with
  | none => exact Draft.commutesAt_entered_none fun e => ht.flags
  | some e => exact Draft.commutesAt_entered_some (hs.isProtected hget) (hs.flags hget)

/-- An assignment can be made before or after the section is merged into an inherited one. -/
theorem commutes_assign (key : String) (v : Scalar) (origin : Origin) (flags : Flags)
    (ht : t.Inherited) (hs : s.Settled) :
    Commutes (fun s s' =>
      (s.setAt key (.scalar v) origin).map (·.modifyFlags key fun _ => flags) = .ok s') t s :=
  (setAt_modifyFlags_alters key _ origin flags).commutes ht.keysDistinct hs.keysDistinct
    (commutesAt_overwritten rfl fun _ => hs.isProtected)

end Section

/-! ## Runs -/

/-- A header, or an assignment by `=` to a key that is not marked as temporary. -/
inductive Item.IsLasting : Item → Prop
  | header {opening closing : Nat} {name : String} : IsLasting (.header opening closing name)
  | assign {marker : Option Marker} {key raw : String} (lasting : marker ≠ some .temporary) :
      IsLasting (.assign marker key .deferred raw)

/-- Only the mark `~` leaves a key unprotected. -/
theorem Draft.markedFlags_isProtected {marker : Option Marker} (h : marker ≠ some .temporary) :
    (Draft.markedFlags marker).isProtected = true := by
  match marker, h with
  | none, _ => rfl
  | some .mandatory, _ => rfl
  | some .final, _ => rfl
  | some .temporary, h => exact absurd rfl h

namespace Session

variable {fs : FileSystem} {parse : (path text : String) → SessionM Section} {s : Session}
  {d d' above above' : Draft} {placed : PlacedItem} {items : List PlacedItem} {t : Section}

/-- The draft of a document that has been built out of nothing. -/
structure Alone (d : Draft) : Prop where
  settled : d.root.Everywhere Section.Settled
  opened : (d.root.sectionAt? d.sections).isSome = true

/-- A document that has not begun is on its own. -/
theorem alone_initial (path source : String) : Alone { path, source } :=
  ⟨Section.settled_of_isEmpty none, rfl⟩

/-- The draft `above` is at the same point of its document as `d`, and its tree is that of `d`
merged into `t`. -/
def OnTop (t : Section) (d above : Draft) : Prop :=
  above = { d with root := above.root } ∧ t.merge d.root = .ok above.root

/-- The sections around the open one are there, too. -/
theorem Alone.opened_take (hd : Alone d) (n : Nat) :
    (d.root.sectionAt? (d.sections.take n)).isSome = true := by
  have hopened := hd.opened
  rw [← List.take_append_drop n d.sections, Section.sectionAt?_append] at hopened
  exact Option.isSome_of_isSome_bind hopened

/-- A header or a lasting assignment leaves a document on its own. -/
theorem alone_of_applyItem (hd : Alone d) (hplaced : placed.item.IsLasting)
    (h : outcome (applyItem fs parse d placed) s = .ok d') : Alone d' := by
  obtain ⟨offset, item⟩ := placed
  cases hplaced with
  | @header opening closing name =>
    rw [outcome, run_applyItem_header] at h
    obtain ⟨-, -, root, hroot, rfl⟩ := Draft.applyHeader_eq_ok_iff.mp h
    constructor
    · refine Section.settled_of_updatesAt (fun parent parent' hparent hentered => ?_)
        hd.settled hroot
      obtain ⟨e, he, hwrites⟩ := (Draft.enter_alters name _).writes hentered
      exact Section.settled_of_entered hparent he hwrites
    · -- the section that has been entered is the open one, and it is there
      obtain ⟨parent, parent', -, hentered, hparent'⟩ := hroot.sectionAt?
      obtain ⟨⟨value, attrs⟩, he, hwrites⟩ := (Draft.enter_alters name _).writes hentered
      obtain ⟨sub, rfl⟩ := Value.isSubsection_iff.mp he.isSubsection
      rw [Section.sectionAt?_append, hparent', Option.bind_some, Section.sectionAt?_cons,
        Section.subsection?_of_get? hwrites.get?_self]
      rfl
  | @assign marker key raw lasting =>
    rw [outcome, run_applyItem_assign] at h
    obtain ⟨value, stored, -, -, root, hroot, rfl⟩ := Draft.applyAssign_eq_ok_iff.mp h
    constructor
    · refine Section.settled_of_updatesAt (fun sub sub' hsub hwritten => ?_) hd.settled hroot
      obtain ⟨e, he, hwrites⟩ := (Section.setAt_modifyFlags_alters key _ _ _).writes hwritten
      have hprotected := Draft.markedFlags_isProtected lasting
      exact Section.settled_of_overwritten rfl hprotected hsub he hwrites
    · obtain ⟨sub, sub', -, -, hsub'⟩ := hroot.sectionAt?
      exact Option.isSome_of_eq_some hsub'

/-- Such items leave the session alone. -/
theorem state_of_applyItem (hplaced : placed.item.IsLasting) :
    ((applyItem fs parse d placed).run s).2 = s := by
  obtain ⟨offset, item⟩ := placed
  cases hplaced with
  | header => rw [run_applyItem_header]
  | assign lasting => rw [run_applyItem_assign]

/-- A header commutes with the merge of the tree, whatever sections it closes. -/
theorem Alone.commutes_enter (hd : Alone d) (ht : t.Everywhere Section.Inherited) (n : Nat)
    (name : String) (origin : Origin) :
    Section.Commutes (Section.UpdatesAt (fun parent => Draft.enter parent name origin)
      (d.sections.take n)) t d.root :=
  Section.commutes_updatesAt (fun _ h => h.keysDistinct) (fun _ h => h.keysDistinct)
    (fun _ _ => Section.commutes_enter name origin) ht hd.settled (hd.opened_take n)

/-- An assignment to the open section commutes with the merge of the tree. -/
theorem Alone.commutes_assign (hd : Alone d) (ht : t.Everywhere Section.Inherited) (key : String)
    (v : Scalar) (origin : Origin) (flags : Flags) :
    Section.Commutes (Section.UpdatesAt (fun s =>
      (s.setAt key (.scalar v) origin).map (·.modifyFlags key fun _ => flags)) d.sections)
      t d.root :=
  Section.commutes_updatesAt (fun _ h => h.keysDistinct) (fun _ h => h.keysDistinct)
    (fun _ _ => Section.commutes_assign key v origin flags) ht hd.settled hd.opened

/-- One item: applied to the document alone and merged afterwards, or applied on top of the tree. -/
theorem applyItem_onTop (ht : t.Everywhere Section.Inherited) (hd : Alone d)
    (hplaced : placed.item.IsLasting) :
    (∃ d', outcome (applyItem fs parse d placed) s = .ok d' ∧ OnTop t d' above') ↔
      ∃ above, OnTop t d above ∧ outcome (applyItem fs parse above placed) s = .ok above' := by
  obtain ⟨offset, item⟩ := placed
  -- what an item asks for besides the update of the tree does not depend on the tree
  cases hplaced with
  | @header opening closing name =>
    simp only [outcome, run_applyItem_header, Draft.applyHeader_eq_ok_iff]
    have hcommutes := hd.commutes_enter ht (opening - 1) name
      ({ d with sections := d.sections.take (opening - 1) }.origin s.frames offset)
    constructor
    · -- from the document on its own to the one on top of the tree
      rintro ⟨_, ⟨hbalanced, hdepth, root, hroot, rfl⟩, habove', hmerge⟩
      obtain ⟨a, ha, hroot'⟩ := (hcommutes above'.root).mp ⟨root, hroot, hmerge⟩
      exact ⟨{ d with root := a }, ⟨rfl, ha⟩, hbalanced, hdepth, above'.root, hroot', habove'⟩
    · rintro ⟨above, ⟨habove, ha⟩, hbalanced, hdepth, root', hroot', rfl⟩
      rw [habove] at hdepth hroot' ⊢
      obtain ⟨root, hroot, hmerge⟩ := (hcommutes root').mpr ⟨above.root, ha, hroot'⟩
      exact ⟨_, ⟨hbalanced, hdepth, root, hroot, rfl⟩, rfl, hmerge⟩
  | @assign marker key raw lasting =>
    simp only [outcome, run_applyItem_assign, Draft.applyAssign_eq_ok_iff]
    have hcommutes stored := hd.commutes_assign ht key stored (d.origin s.frames offset)
      (Draft.markedFlags marker)
    constructor
    · rintro ⟨_, ⟨value, stored, hvalue, hstored, root, hroot, rfl⟩, habove', hmerge⟩
      obtain ⟨a, ha, hroot'⟩ := (hcommutes stored above'.root).mp ⟨root, hroot, hmerge⟩
      exact ⟨{ d with root := a }, ⟨rfl, ha⟩, value, stored, hvalue, hstored, above'.root, hroot',
        habove'⟩
    · rintro ⟨above, ⟨habove, ha⟩, value, stored, hvalue, hstored, root', hroot', rfl⟩
      rw [habove] at hstored hroot' ⊢
      obtain ⟨root, hroot, hmerge⟩ := (hcommutes stored root').mpr ⟨above.root, ha, hroot'⟩
      exact ⟨_, ⟨value, stored, hvalue, hstored, root, hroot, rfl⟩, rfl, hmerge⟩

/-- All items, by taking one after the other from the side of the document to the side of the
tree. -/
theorem foldlM_onTop (ht : t.Everywhere Section.Inherited) (hd : Alone d)
    (hitems : ∀ placed ∈ items, placed.item.IsLasting) :
    (∃ d', outcome (items.foldlM (applyItem fs parse) d) s = .ok d' ∧ OnTop t d' above') ↔
      ∃ above, OnTop t d above ∧
        outcome (items.foldlM (applyItem fs parse) above) s = .ok above' := by
  induction items generalizing d with
  | nil =>
    simp only [outcome_foldlM_nil_eq_ok_iff, exists_eq_left]
    constructor
    · exact fun h => ⟨above', h, rfl⟩
    · rintro ⟨_, h, rfl⟩
      exact h
  | cons placed items ih =>
    obtain ⟨hplaced, hitems⟩ := List.forall_mem_cons.mp hitems
    simp only [outcome_foldlM_cons_eq_ok_iff, state_of_applyItem hplaced]
    constructor
    · -- the rest of the items is moved past the merge first, and then the one in front of them
      rintro ⟨d', ⟨d₁, hd₁, hrest⟩, habove'⟩
      have halone := alone_of_applyItem hd hplaced hd₁
      obtain ⟨above₁, habove₁, hrun⟩ := (ih halone hitems).mp ⟨d', hrest, habove'⟩
      obtain ⟨above, habove, hstep⟩ := (applyItem_onTop ht hd hplaced).mp ⟨d₁, hd₁, habove₁⟩
      exact ⟨above, habove, above₁, hstep, hrun⟩
    · rintro ⟨above, habove, above₁, hstep, hrun⟩
      obtain ⟨d₁, hd₁, habove₁⟩ := (applyItem_onTop ht hd hplaced).mpr ⟨above, habove, hstep⟩
      have halone := alone_of_applyItem hd hplaced hd₁
      obtain ⟨d', hrest, habove'⟩ := (ih halone hitems).mpr ⟨above₁, habove₁, hrun⟩
      exact ⟨d', ⟨d₁, hd₁, hrest⟩, habove'⟩

/-- Applying headers and assignments on top of a tree that has been inherited succeeds exactly if
applying them alone does and what they build can be merged into the tree, and it gives what this
merge gives. -/
theorem foldlM_applyItem_iff_merge (path source : String)
    (ht : t.Everywhere Section.Inherited)
    (hitems : ∀ placed ∈ items, placed.item.IsLasting) (a : Section) :
    (∃ above, outcome (items.foldlM (applyItem fs parse) { path, source, root := t }) s
        = .ok above ∧ above.root = a) ↔
      ∃ d, outcome (items.foldlM (applyItem fs parse) { path, source }) s = .ok d ∧
        t.merge d.root = .ok a := by
  -- Before the first item the document has an empty tree, and on top of `t` that is `t`.
  have hinitial : t.merge .root = .ok t := Section.merge_nil_iff.mpr rfl
  constructor
  · rintro ⟨above, hrun, rfl⟩
    obtain ⟨d, hd, -, hmerge⟩ := (foldlM_onTop ht (alone_initial path source) hitems).mpr
      ⟨{ path, source, root := t }, ⟨rfl, hinitial⟩, hrun⟩
    exact ⟨d, hd, hmerge⟩
  · rintro ⟨d, hd, hmerge⟩
    obtain ⟨above, ⟨habove, habove'⟩, hrun⟩ :=
      (foldlM_onTop ht (alone_initial path source) hitems).mp
        ⟨d, hd, (rfl : { d with root := a } = _), hmerge⟩
    obtain rfl : above.root = t := by
      rw [show (Draft.root { path, source }) = .root from rfl, hinitial] at habove'
      exact (Except.ok.inj habove').symm
    exact ⟨_, habove ▸ hrun, rfl⟩

/-- A tree with a section to enter again, in which only `x` may be overwritten. -/
def inheritedTree : Section :=
  ⟨none, ⟨[("a", ⟨.subsection ⟨some "a", ⟨[
      ("x", ⟨.scalar (.text "1"), { flags := { writable := true } }⟩),
      ("y", ⟨.scalar (.text "2"), {}⟩)]⟩⟩, { flags := { writable := true } }⟩)]⟩⟩

/-- A document that overwrites `x`, adds a key, and opens a section twice. -/
def overwriting : List PlacedItem :=
  [⟨0, .header 1 1 "b"⟩, ⟨4, .header 1 1 "a"⟩, ⟨8, .assign (some .final) "x" .deferred "3"⟩,
    ⟨15, .assign none "z" .deferred "4"⟩, ⟨21, .header 1 1 "b"⟩]

/-- A document that overwrites an inherited key, adds another one, and enters a section twice. -/
theorem foldlM_applyItem_iff_merge_overwriting :
    ∃ d a, outcome (overwriting.foldlM (applyItem .empty (parseDocument .empty 0))
        { path := "/main", source := "" }) {} = .ok d ∧
      inheritedTree.merge d.root = .ok a ∧
      ∃ above, outcome (overwriting.foldlM (applyItem .empty (parseDocument .empty 0))
        { path := "/main", source := "", root := inheritedTree }) {} = .ok above ∧
        above.root = a := by
  have hinherited : inheritedTree.Everywhere Section.Inherited := by
    refine .of_toList (Section.inherited_of_toList (by decide) (by decide)) ?_
    rintro _ (_ | ⟨_, ⟨⟩⟩) sub ⟨⟩
    refine .of_toList (Section.inherited_of_toList (by decide) (by decide)) ?_
    rintro _ (_ | ⟨_, _ | ⟨_, ⟨⟩⟩⟩) sub ⟨⟩
  have hlasting : ∀ placed ∈ overwriting, placed.item.IsLasting := by
    simp only [overwriting, List.forall_mem_cons]
    exact ⟨.header, .header, .assign nofun, .assign nofun, .header, nofun⟩
  have hmerged : ((outcome (overwriting.foldlM (applyItem .empty (parseDocument .empty 0))
      { path := "/main", source := "" }) {}).toOption.bind
        fun d => (inheritedTree.merge d.root).toOption).isSome = true := by
    decide +kernel
  obtain ⟨a, ha⟩ := Option.isSome_iff_exists.mp hmerged
  obtain ⟨d, hd, hmerge⟩ := Option.bind_eq_some_iff.mp ha
  have hd := Except.toOption_eq_some_iff.mp hd
  have hmerge := Except.toOption_eq_some_iff.mp hmerge
  exact ⟨d, a, hd, hmerge,
    (foldlM_applyItem_iff_merge "/main" "" hinherited hlasting a).mpr ⟨d, hd, hmerge⟩⟩

end Session

end LayeredConfig
