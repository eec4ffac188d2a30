import LayeredConfig.Proofs.Session.Entrywise

/-!
# What holds of the tree of every document

A property that the empty tree has, and that headers, assignments and the absorption of a tree with
the same property keep, holds at every point of every document and of all documents that are
included, however deep. `DocumentInvariant` packs these conditions. The first such property is
`Orderly`: keys are distinct, and a key that holds a section has no flag but the permission to
overwrite it, since only assignments set flags and they write scalars. Another one is that the tree
itself has no name.
-/

namespace LayeredConfig

variable {d d' : Draft} {frames : List Frame} {offset opening closing : Nat} {name key : String}
  {origin : Origin} {marker : Option Marker} {op : AssignOp} {raw : String} {writable : Bool}
  {included : Section}

/-- What it takes for a property of trees to hold at every point of every document. -/
structure DocumentInvariant (I : Section → Prop) : Prop where
  root : I .root
  header : ∀ {d d' : Draft} {frames offset opening closing name}, I d.root →
    d.applyHeader frames offset opening closing name = .ok d' → I d'.root
  assign : ∀ {d d' : Draft} {frames offset marker key op raw}, I d.root →
    d.applyAssign frames offset marker key op raw = .ok d' → I d'.root
  absorb : ∀ {d d' : Draft} {origin writable included}, I d.root → I included →
    d.absorb origin writable included = .ok d' → I d'.root

namespace DocumentInvariant

open Session

variable {I : Section → Prop} {fs : FileSystem} {parse : (path text : String) → SessionM Section}
  {s : Session} {placed : PlacedItem} {items : List PlacedItem} {depth : Nat}
  {path text : String} {root : Section}

/-- One item keeps the invariant, provided that the tree of an included document has it. -/
theorem applyItem (hI : DocumentInvariant I)
    (hparse : ∀ path text s root, outcome (parse path text) s = .ok root → I root)
    (hd : I d.root) (h : outcome (applyItem fs parse d placed) s = .ok d') : I d'.root := by
  obtain ⟨offset, item⟩ := placed
  cases item with
  | header opening closing name =>
    rw [outcome, run_applyItem_header] at h
    exact hI.header hd h
  | assign marker key op raw =>
    rw [outcome, run_applyItem_assign] at h
    exact hI.assign hd h
  -- Only a command needs the hypothesis about the other documents.
  | command name argument =>
    obtain ⟨writable, path, text, included, -, hincluded, habsorb⟩ :=
      outcome_applyItem_command_eq_ok h
    exact hI.absorb hd (hparse path text _ included hincluded) habsorb

/-- Any number of items keep the invariant. -/
theorem foldlM (hI : DocumentInvariant I)
    (hparse : ∀ path text s root, outcome (parse path text) s = .ok root → I root)
    (hd : I d.root) (h : outcome (items.foldlM (Session.applyItem fs parse) d) s = .ok d') :
    I d'.root := by
  induction items generalizing d s with
  | nil =>
    obtain rfl := outcome_foldlM_nil_eq_ok_iff.mp h
    exact hd
  | cons placed items ih =>
    obtain ⟨d₁, hplaced, hitems⟩ := outcome_foldlM_cons_eq_ok_iff.mp h
    exact ih (hI.applyItem hparse hd hplaced) hitems

/-- Every document that is read has the invariant, at whatever depth. -/
theorem parseDocument (hI : DocumentInvariant I)
    (h : outcome (parseDocument fs depth path text) s = .ok root) : I root := by
  induction depth generalizing path text s root with
  | zero => cases h
  | succ depth ih =>
    rw [Session.parseDocument, outcome, run_get_bind] at h
    obtain ⟨d, hd, hend⟩ := outcome_bind_eq_ok_iff.mp h
    have hroot := hI.foldlM (fun _ _ _ _ => ih) hI.root hd
    split at hend
    · cases hend
      exact hroot
    · cases hend

end DocumentInvariant

/-! ## Orderly trees -/

namespace Section

/-- The flags of an entry that holds a section are clear but for the permission to overwrite. -/
def ClearOfMarks (isSubsection : Bool) (flags : Flags) : Prop :=
  isSubsection = true → flags = { writable := flags.writable }

/-- The keys of a section are distinct, and those that hold sections are not marked. -/
abbrev Orderly : Section → Prop :=
  Entrywise ClearOfMarks

/-- Granting permission to a whole tree sets no other flag, and moves no key. -/
theorem orderly_setWritableDeep {s : Section} (hs : s.Everywhere Orderly) (writable : Bool) :
    (s.setWritableDeep writable).Everywhere Orderly :=
  entrywise_setWritableDeep writable (fun _ _ hflags hb => by rw [hflags hb]) hs

/-- Headers, assignments and absorbed trees leave a tree orderly. -/
theorem orderly_documentInvariant : DocumentInvariant (Everywhere Orderly) where
  root := entrywise_of_isEmpty none
  header hd h := by
    obtain ⟨-, -, root, hroot, rfl⟩ := Draft.applyHeader_eq_ok_iff.mp h
    refine entrywise_of_updatesAt (fun parent parent' hparent hentered => ?_) hd hroot
    obtain ⟨e, he, hwrites⟩ := (Draft.enter_alters _ _).writes hentered
    refine entrywise_of_entered (fun _ => rfl) (fun flags hflags _ => ?_) hparent he hwrites
    -- a section that is entered again had the permission at most, and this is taken back
    rw [hflags rfl]
  assign hd h := by
    obtain ⟨value, stored, -, -, root, hroot, rfl⟩ := Draft.applyAssign_eq_ok_iff.mp h
    refine entrywise_of_updatesAt (fun sub sub' hsub hwritten => ?_) hd hroot
    obtain ⟨e, he, hwrites⟩ := (setAt_modifyFlags_alters _ _ _ _).writes hwritten
    exact entrywise_of_overwritten rfl nofun hsub he hwrites
  absorb hd hincluded h := by
    obtain ⟨root, hroot, rfl⟩ := Draft.absorb_eq_ok_iff.mp h
    refine entrywise_of_updatesAt (fun sub sub' hsub hmerged => ?_) hd hroot
    exact entrywise_of_merge hsub (orderly_setWritableDeep hincluded _) hmerged

/-- A final key of an orderly tree holds a scalar. -/
theorem isSubsection_of_final {s : Section} {p : List String} {e : Entry}
    (hs : s.Everywhere Orderly) (h : s.entryAt? p = some e) (hfinal : e.attrs.flags.final = true) :
    e.value.isSubsection = false := by
  by_contra hsection
  rw [Bool.not_eq_false] at hsection
  rw [Entrywise.entryAt? hs h hsection] at hfinal
  cases hfinal

/-! ## Names -/

/-- The tree of a document has no name. -/
theorem unnamed_documentInvariant : DocumentInvariant fun s => s.name = none where
  root := rfl
  header hd h := by
    obtain ⟨-, -, root, hroot, rfl⟩ := Draft.applyHeader_eq_ok_iff.mp h
    refine (hroot.name_eq fun parent parent' hentered => ?_).trans hd
    obtain ⟨e, -, hwrites⟩ := (Draft.enter_alters _ _).writes hentered
    exact hwrites.name
  assign hd h := by
    obtain ⟨value, stored, -, -, root, hroot, rfl⟩ := Draft.applyAssign_eq_ok_iff.mp h
    refine (hroot.name_eq fun sub sub' hwritten => ?_).trans hd
    obtain ⟨e, -, hwrites⟩ := (setAt_modifyFlags_alters _ _ _ _).writes hwritten
    exact hwrites.name
  absorb hd _ h := by
    obtain ⟨root, hroot, rfl⟩ := Draft.absorb_eq_ok_iff.mp h
    exact (hroot.name_eq fun _ _ => name_eq_of_merge).trans hd

end Section

end LayeredConfig
