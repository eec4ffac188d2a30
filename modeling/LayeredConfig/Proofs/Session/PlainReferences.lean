import LayeredConfig.Proofs.Section.Attributes
import LayeredConfig.Proofs.Section.CapturedSource
import LayeredConfig.Proofs.Section.Levels
import LayeredConfig.Proofs.Session.Invariants

/-!
# References of documents

The references in the tree of a document can all be written, whatever is included and whatever
immediate values capture: they have been read from some raw value. So a captured template of a
document has a source form with the same meaning as soon as its parts are seamless.
-/

namespace LayeredConfig

/-! ## References that are read -/

/-- The pieces of some fragments are those of one of them. -/
theorem Fragment.exists_of_mem_piecesList {fragments : List Fragment} {piece : Piece}
    (h : piece ∈ piecesList fragments) : ∃ fragment ∈ fragments, piece ∈ fragment.pieces := by
  induction fragments with
  | nil => cases h
  | cons fragment fragments ih =>
    rcases List.mem_append.mp h with hfirst | hothers
    · exact ⟨fragment, List.mem_cons_self, hfirst⟩
    · obtain ⟨other, hmem, hpiece⟩ := ih hothers
      exact ⟨other, List.mem_cons_of_mem _ hmem, hpiece⟩

/-- A value that has been read from a raw value has references that can be written. -/
theorem Template.isPlain_of_parse {raw : String} {v : Scalar} (h : parse raw = .ok v) :
    v.IsPlain := by
  intro ref hmem
  cases v with
  | text s => cases List.mem_singleton.mp hmem
  | template t =>
    obtain ⟨fragment, hfragment, hpiece⟩ := Fragment.exists_of_mem_piecesList hmem
    have hplain := (normal_of_parse h).plain fragment hfragment
    -- A raw value has no captured templates in it, so each fragment is a single piece.
    cases fragment with
    | literal text => cases List.mem_singleton.mp hpiece
    | reference ref' =>
      cases List.mem_singleton.mp hpiece
      exact hplain
    | nested inner => exact absurd hplain id

/-- What an assignment stores has such references, also where it has captured them from the tree. -/
theorem Draft.isPlain_storedValue {d : Draft} {origin : Origin} {key : String} {op : AssignOp}
    {value stored : Scalar} (hroot : d.root.PlainReferences) (hvalue : value.IsPlain)
    (h : d.storedValue origin key op value = .ok stored) : stored.IsPlain := by
  unfold storedValue at h
  split at h
  · exact Section.isPlain_evaluateImmediate hroot (Except.mapError_eq_ok_iff.mp h)
  · cases h
    exact hvalue

namespace Section

variable {s s' dst src out : Section} {key : String} {e : Entry} {path : List String}

/-! ## References that are kept -/

/-- Writing a value with such references keeps them such in the tree. -/
theorem PlainReferences.writes (hs : s.PlainReferences) (h : Writes s key e s')
    (he : e.value.PlainReferences) : s'.PlainReferences := by
  refine plainReferences_iff.mpr fun k new hnew => ?_
  rw [h.get?] at hnew
  split at hnew
  · cases hnew
    exact he
  · exact plainReferences_iff.mp hs k new hnew

/-- An update below a path keeps them such if it does so at the end of the path. -/
theorem PlainReferences.updatesAt {f : Section → Except ε Section}
    (hf : ∀ s s', s.PlainReferences → f s = .ok s' → s'.PlainReferences)
    (hs : s.PlainReferences) (h : UpdatesAt f path s s') : s'.PlainReferences := by
  induction path generalizing s s' with
  | nil => exact hf s s' hs (updatesAt_nil_iff.mp h)
  | cons name path ih =>
    obtain ⟨e, ⟨sub, attrs, sub', hget, hsub', rfl⟩, hwrites⟩ :=
      (updatesAt_cons_alters f name path).writes h
    exact hs.writes hwrites (ih (plainReferences_iff.mp hs name _ hget) hsub')

/-- A merge brings in no references but those of the two trees. -/
theorem PlainReferences.merge (hkeys : src.Everywhere KeysDistinct) (hdst : dst.PlainReferences)
    (hsrc : src.PlainReferences) (h : dst.merge src = .ok out) : out.PlainReferences := by
  induction dst using subsection_induction generalizing src out with
  | step dst ih =>
    have hlevel := overlays_of_merge hkeys.holds h
    rw [plainReferences_iff] at hdst hsrc ⊢
    intro k e he
    -- every entry comes from one side, or else from merging two sections
    cases hnew : src.entries.get? k with
    | none =>
      rw [hlevel.kept k (OrderedMap.get?_eq_none_iff.mp hnew)] at he
      exact hdst k e he
    | some new =>
      cases hold : dst.entries.get? k with
      | none =>
        rw [hlevel.copied k (OrderedMap.get?_eq_none_iff.mp hold)] at he
        exact hsrc k e he
      | some old =>
        obtain ⟨e', he', hvalue, -, -⟩ := hlevel.merged k old new hold hnew
        obtain rfl := Option.some.inj (he'.symm.trans he)
        have hplainOld := hdst k old hold
        have hplainNew := hsrc k new hnew
        obtain ⟨oldValue, oldAttrs⟩ := old
        obtain ⟨newValue, newAttrs⟩ := new
        generalize e'.value = value at hvalue ⊢
        cases hvalue with
        | sections merged =>
          have hsub := hkeys.of_get? hnew rfl
          exact ih k _ (subsection?_of_get? hold) hsub hplainOld hplainNew merged
        | replaced shapes => exact hplainNew

/-- Granting permission does not touch references. -/
theorem PlainReferences.setWritableDeep (hs : s.PlainReferences) (writable : Bool) :
    (s.setWritableDeep writable).PlainReferences := by
  intro p v hv
  rw [setWritableDeep_eq_mapAttrs, lookup?_mapAttrs] at hv
  obtain ⟨value, hvalue, hscalar⟩ := Option.map_eq_some_iff.mp hv
  cases value with
  | scalar w =>
    cases hscalar
    exact hs p v hvalue
  | subsection sub => cases hscalar

/-- A section without entries has no references. -/
theorem plainReferences_of_isEmpty (name : Option String) : PlainReferences ⟨name, ∅⟩ :=
  plainReferences_iff.mpr nofun

/-! ## Documents -/

/-- Every document has only references that can be written. -/
theorem plainReferences_documentInvariant :
    DocumentInvariant fun s => s.Everywhere Orderly ∧ s.PlainReferences where
  root := ⟨orderly_documentInvariant.root, plainReferences_of_isEmpty none⟩
  header hd h := by
    refine ⟨orderly_documentInvariant.header hd.1 h, ?_⟩
    obtain ⟨-, -, root, hroot, rfl⟩ := Draft.applyHeader_eq_ok_iff.mp h
    refine hd.2.updatesAt (fun parent parent' hparent hentered => ?_) hroot
    obtain ⟨e, he, hwrites⟩ := (Draft.enter_alters _ _).writes hentered
    refine hparent.writes hwrites ?_
    -- a section that is entered again has the references it had, and a new one has none
    generalize hold : parent.entries.get? _ = old at he
    cases he with
    | again notFinal =>
      have hsub := plainReferences_iff.mp hparent _ _ hold
      exact hsub
    | fresh noSection overwritten =>
      obtain ⟨-, rfl⟩ := overwritten
      exact plainReferences_of_isEmpty _
  assign hd h := by
    refine ⟨orderly_documentInvariant.assign hd.1 h, ?_⟩
    obtain ⟨value, stored, hvalue, hstored, root, hroot, rfl⟩ := Draft.applyAssign_eq_ok_iff.mp h
    refine hd.2.updatesAt (fun sub sub' hsub hwritten => ?_) hroot
    obtain ⟨e, ⟨-, rfl⟩, hwrites⟩ := (setAt_modifyFlags_alters _ _ _ _).writes hwritten
    have hplain := Template.isPlain_of_parse hvalue
    exact hsub.writes hwrites (Draft.isPlain_storedValue hd.2 hplain hstored)
  absorb hd hincluded h := by
    refine ⟨orderly_documentInvariant.absorb hd.1 hincluded.1 h, ?_⟩
    obtain ⟨root, hroot, rfl⟩ := Draft.absorb_eq_ok_iff.mp h
    refine hd.2.updatesAt (fun sub sub' hsub hmerged => ?_) hroot
    -- the included tree is orderly as well, which a merge needs
    have horderly := orderly_setWritableDeep hincluded.1
    exact hsub.merge ((horderly _).imp fun _ hs => hs.keysDistinct)
      (hincluded.2.setWritableDeep _) hmerged

end Section

namespace Session

/-- The references in the tree of a document can be written, after each of its items. -/
theorem plainReferences_of_foldlM {fs : FileSystem} {depth : Nat} {path source : String}
    {items : List PlacedItem} {s : Session} {d : Draft}
    (h : outcome (items.foldlM (applyItem fs (parseDocument fs depth)) { path, source }) s
      = .ok d) : d.root.PlainReferences :=
  (Section.plainReferences_documentInvariant.foldlM
    (fun _ _ _ _ => Section.plainReferences_documentInvariant.parseDocument)
    Section.plainReferences_documentInvariant.root h).2

end Session

end LayeredConfig
