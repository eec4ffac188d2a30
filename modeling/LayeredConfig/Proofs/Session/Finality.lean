import LayeredConfig.Proofs.Session.Frames
import LayeredConfig.Proofs.Session.Invariants

/-!
# Final keys

A final key is never overwritten, whatever permission there is to overwrite its section: `Spares`
says so of one change of a tree, and it is kept by writes, by merges and at the end of a path. There
is one way in which a final key is lost all the same. Protection is asked of the key that is written
and not of the keys below it, so a scalar may be written over an unprotected section with final keys
in it. `Buries` is this event, and `final_persists_unless_buried` says that there is no other.
-/

namespace LayeredConfig

namespace Section

variable {s s' sub sub' dst src out : Section} {key k : String} {e old : Entry}
  {p path : List String}

/-- Between `s` and `s'` a scalar has been written over an unprotected section around the key at
`p`. -/
def Buries (s s' : Section) (p : List String) : Prop :=
  ∃ q r sub attrs v attrs', q ≠ [] ∧ r ≠ [] ∧ p = q ++ r ∧
    s.entryAt? q = some ⟨.subsection sub, attrs⟩ ∧ attrs.isProtected = false ∧
      s'.entryAt? q = some ⟨.scalar v, attrs'⟩

/-- Every final scalar of `s` is in `s'` unchanged, unless a section around it has been written
over. -/
def Spares (s s' : Section) : Prop :=
  ∀ p old, s.entryAt? p = some old → old.attrs.flags.final = true →
    old.value.isSubsection = false → s'.entryAt? p = some old ∨ Buries s s' p

/-- The same for one entry: the entry `e` stands where `old` stood. -/
structure Spared (old e : Entry) : Prop where
  scalar : old.attrs.flags.final = true → old.value.isSubsection = false → e = old
  subsection : ∀ sub, old.value = .subsection sub →
    (∃ sub', e.value = .subsection sub' ∧ Spares sub sub') ∨
      (old.attrs.isProtected = false ∧ e.value.isSubsection = false)

/-- What is buried below a section is buried one level higher, too. -/
theorem Buries.cons (hs : s.subsection? k = some sub) (hs' : s'.subsection? k = some sub')
    (h : Buries sub sub' p) : Buries s s' (k :: p) := by
  obtain ⟨q, r, inner, attrs, v, attrs', hq, hr, rfl, hold, hfree, hnew⟩ := h
  refine ⟨k :: q, r, inner, attrs, v, attrs', List.cons_ne_nil k q, hr, rfl, ?_, hfree, ?_⟩
  · rw [entryAt?_cons s k hq, hs, Option.bind_some, hold]
  · rw [entryAt?_cons s' k hq, hs', Option.bind_some, hnew]

/-- A final key is protected, whatever permission there is to overwrite it. -/
theorem isProtected_of_final {attrs : KeyAttrs} (h : attrs.flags.final = true) :
    attrs.isProtected = true := by
  rw [KeyAttrs.isProtected, Flags.isProtected, h, Bool.true_or]

/-- An entry is spared when nothing happens to it. -/
theorem Spared.refl (e : Entry) : Spared e e :=
  ⟨fun _ _ => rfl, fun sub hsub => Or.inl ⟨sub, hsub, fun _ _ hold _ _ => Or.inl hold⟩⟩

/-- What is not protected is not final, and may be replaced by anything but another section. -/
theorem Spared.of_unprotected (hold : old.attrs.isProtected = false)
    (hshape : (old.value.isSubsection && e.value.isSubsection) = false) : Spared old e := by
  refine ⟨fun hfinal => ?_, fun sub hsub => Or.inr ⟨hold, ?_⟩⟩
  · rw [isProtected_of_final hfinal] at hold
    cases hold
  · rwa [hsub, Value.isSubsection_subsection, Bool.true_and] at hshape

namespace Spares

/-- Sparing every entry of a section is sparing the tree. -/
theorem of_get? (h : ∀ k old, s.entries.get? k = some old →
    ∃ e, s'.entries.get? k = some e ∧ Spared old e) : Spares s s' := by
  intro p old hold hfinal hscalar
  cases p with
  | nil => cases hold
  | cons k p =>
    by_cases hp : p = []
    · -- the final key itself
      subst hp
      rw [entryAt?_singleton] at hold ⊢
      obtain ⟨e, he, hspared⟩ := h k old hold
      left
      rw [he, hspared.scalar hfinal hscalar]
    · -- a section around it
      rw [entryAt?_cons s k hp] at hold
      obtain ⟨sub, hsub, hold⟩ := Option.bind_eq_some_iff.mp hold
      obtain ⟨attrs, hget⟩ := subsection?_eq_some_iff.mp hsub
      obtain ⟨⟨value, attrs'⟩, he, hspared⟩ := h k _ hget
      rcases hspared.subsection sub rfl with ⟨sub', rfl, hspares⟩ | ⟨hfree, hvalue⟩
      · have hsub' := subsection?_of_get? he
        rcases hspares p old hold hfinal hscalar with hkept | hburied
        · left
          rw [entryAt?_cons s' k hp, hsub', Option.bind_some, hkept]
        · exact Or.inr (hburied.cons hsub hsub')
      · right
        cases value with
        | subsection sub' => cases hvalue
        | scalar v =>
          refine ⟨[k], p, sub, attrs, v, attrs', List.cons_ne_nil k [], hp, rfl, ?_, hfree, ?_⟩
          · rw [entryAt?_singleton, hget]
          · rw [entryAt?_singleton, he]

/-- Writing a key spares the final keys of a section if it spares those at and below this key. -/
theorem of_writes (h : Writes s key e s')
    (hkey : ∀ old, s.entries.get? key = some old → Spared old e) : Spares s s' := by
  refine of_get? fun k old hold => ?_
  by_cases hk : k = key
  · subst hk
    exact ⟨e, h.get?_self, hkey old hold⟩
  · exact ⟨old, by rw [h.get?_of_ne hk, hold], .refl old⟩

/-- An assignment or a new header spares final keys, or buries those of a section that it
overwrites. -/
theorem of_overwritten {value : Value} {flags : Flags} {origin : Origin}
    (h : Writes s key e s') (he : Overwritten value flags origin (s.entries.get? key) e)
    (hshape : ((s.entries.get? key).any (fun o => o.value.isSubsection) && value.isSubsection)
      = false) : Spares s s' := by
  obtain ⟨hfree, rfl⟩ := he
  refine of_writes h fun old hold => ?_
  rw [hold, Option.any_some] at hfree hshape
  exact .of_unprotected hfree hshape

/-- Entering a section leaves the final keys in it alone. -/
theorem of_entered {origin : Origin} (h : Writes s key e s')
    (he : Draft.Entered key origin (s.entries.get? key) e) : Spares s s' := by
  generalize hold : s.entries.get? key = old at he
  cases he with
  | @again sub attrs notFinal =>
    refine of_writes h fun old' hold' => ?_
    rw [hold] at hold'
    cases hold'
    exact ⟨nofun, (Spared.refl ⟨.subsection sub, attrs⟩).subsection⟩
  | fresh noSection overwritten =>
    subst hold
    exact of_overwritten h overwritten (by rw [noSection, Bool.false_and])

/-- A merge meets every key once, and goes on into sections that both sides have. -/
theorem of_merge (hsrc : src.Everywhere KeysDistinct) (h : dst.merge src = .ok out) :
    Spares dst out := by
  induction dst using subsection_induction generalizing src out with
  | step dst ih =>
    obtain ⟨-, -, hget⟩ := merge_spec hsrc.holds h
    refine of_get? fun k old hold => ?_
    have hat := hget k
    rw [hold] at hat
    cases hsrcget : src.entries.get? k with
    | none =>
      rw [hsrcget] at hat
      exact ⟨old, hat, .refl old⟩
    | some new =>
      rw [hsrcget] at hat
      obtain ⟨e, habsorbed, he⟩ := hat
      refine ⟨e, he, ?_⟩
      cases habsorbed with
      | overwritten unprotected shapes => exact .of_unprotected unprotected shapes
      -- Two sections are merged in turn. The induction is on the destination, since it holds the
      -- final keys.
      | @descended d src' m attrs unprotected hvalue hmerged =>
        refine ⟨nofun, ?_⟩
        rintro _ ⟨⟩
        obtain ⟨value, newAttrs⟩ := new
        obtain rfl : value = .subsection src' := hvalue
        have hsub := hsrc.down (subsection?_of_get? hsrcget)
        exact Or.inl ⟨m, rfl, ih k d (subsection?_of_get? hold) hsub hmerged⟩

/-- An update below a path spares what the update at the end of the path spares. -/
theorem of_updatesAt {f : Section → Except ε Section}
    (hf : ∀ sub sub', f sub = .ok sub' → Spares sub sub') (h : UpdatesAt f path s s') :
    Spares s s' := by
  induction path generalizing s s' with
  | nil => exact hf s s' (updatesAt_nil_iff.mp h)
  | cons name path ih =>
    obtain ⟨e, ⟨sub, attrs, sub', hget, hsub', rfl⟩, hwrites⟩ :=
      (updatesAt_cons_alters f name path).writes h
    refine of_writes hwrites fun old hold => ?_
    rw [hget] at hold
    cases hold
    refine ⟨nofun, ?_⟩
    -- the section of this name is still one, with what has been spared below
    rintro _ ⟨⟩
    exact Or.inl ⟨sub', rfl, ih hsub'⟩

end Spares

end Section

namespace Session

variable {fs : FileSystem} {s : Session} {d d' : Draft} {placed : PlacedItem}
  {before after : List PlacedItem} {depth : Nat} {p : List String} {old : Entry}

/-- Whatever kind of item it is, applying it spares the final keys of the tree. -/
theorem spares_of_applyItem
    (h : outcome (applyItem fs (parseDocument fs depth) d placed) s = .ok d') :
    Section.Spares d.root d'.root := by
  obtain ⟨offset, item⟩ := placed
  cases item with
  | header opening closing name =>
    rw [outcome, run_applyItem_header] at h
    obtain ⟨-, -, root, hroot, rfl⟩ := Draft.applyHeader_eq_ok_iff.mp h
    refine Section.Spares.of_updatesAt (fun parent parent' hparent => ?_) hroot
    obtain ⟨e, he, hwrites⟩ := (Draft.enter_alters name _).writes hparent
    exact .of_entered hwrites he
  | assign marker key op raw =>
    rw [outcome, run_applyItem_assign] at h
    obtain ⟨value, stored, -, -, root, hroot, rfl⟩ := Draft.applyAssign_eq_ok_iff.mp h
    refine Section.Spares.of_updatesAt (fun sub sub' hsub => ?_) hroot
    obtain ⟨e, he, hwrites⟩ := (Section.setAt_modifyFlags_alters key _ _ _).writes hsub
    exact .of_overwritten hwrites he (Bool.and_false _)
  | command name argument =>
    obtain ⟨writable, path, text, included, -, hincluded, habsorb⟩ :=
      outcome_applyItem_command_eq_ok h
    obtain ⟨root, hroot, rfl⟩ := Draft.absorb_eq_ok_iff.mp habsorb
    -- A merge looks keys up in the source, so these have to be distinct.
    have horderly := Section.orderly_documentInvariant.parseDocument hincluded
    have hsrc := Section.orderly_setWritableDeep horderly writable
    refine Section.Spares.of_updatesAt (fun sub sub' hsub => .of_merge ?_ hsub) hroot
    exact hsrc.imp fun _ h => h.keysDistinct

/-- A final key persists through a run of items, or one of the items buries it. -/
theorem persists_or_buried (hd : d.root.Everywhere Section.Orderly)
    (hafter : outcome (after.foldlM (applyItem fs (parseDocument fs depth)) d) s = .ok d')
    (hold : d.root.entryAt? p = some old) (hfinal : old.attrs.flags.final = true) :
    d'.root.entryAt? p = some old ∨
      ∃ done placed rest d₁ d₂, after = done ++ placed :: rest ∧
        outcome (done.foldlM (applyItem fs (parseDocument fs depth)) d) s = .ok d₁ ∧
        outcome (applyItem fs (parseDocument fs depth) d₁ placed) s = .ok d₂ ∧
        Section.Buries d₁.root d₂.root p := by
  induction after generalizing d with
  | nil =>
    obtain rfl := outcome_foldlM_nil_eq_ok_iff.mp hafter
    exact Or.inl hold
  | cons placed after ih =>
    have hstate := balanced_applyItem fs (balanced_parseDocument fs depth) d placed s
    obtain ⟨d₁, hplaced, hrest⟩ := outcome_foldlM_cons_eq_ok_iff.mp hafter
    have hscalar := Section.isSubsection_of_final hd hold hfinal
    -- The first item either leaves the key to the rest of the items, or is the one that buries it.
    rcases spares_of_applyItem hplaced p old hold hfinal hscalar with hkept | hburied
    · have hd₁ := Section.orderly_documentInvariant.applyItem
        (fun _ _ _ _ h => Section.orderly_documentInvariant.parseDocument h) hd hplaced
      rw [hstate] at hrest
      rcases ih hd₁ hrest hkept with hlast | ⟨done, placed', rest, d₂, d₃, rfl, hdone, hburying⟩
      · exact Or.inl hlast
      · refine Or.inr ⟨placed :: done, placed', rest, d₂, d₃, rfl, ?_, hburying⟩
        exact outcome_foldlM_cons_eq_ok_iff.mpr ⟨d₁, hplaced, hstate.symm ▸ hdone⟩
    · exact Or.inr ⟨[], placed, after, d, d₁, rfl, rfl, hplaced, hburied⟩

/-- A final key stays as it is until the end of its document, unless some item writes a scalar over
an unprotected section around it. -/
theorem final_persists_unless_buried {path source : String}
    (hbefore : outcome (before.foldlM (applyItem fs (parseDocument fs depth)) { path, source }) s
      = .ok d)
    (hafter : outcome (after.foldlM (applyItem fs (parseDocument fs depth)) d) s = .ok d')
    (hold : d.root.entryAt? p = some old) (hfinal : old.attrs.flags.final = true) :
    d'.root.entryAt? p = some old ∨
      ∃ done placed rest d₁ d₂, after = done ++ placed :: rest ∧
        outcome (done.foldlM (applyItem fs (parseDocument fs depth)) d) s = .ok d₁ ∧
        outcome (applyItem fs (parseDocument fs depth) d₁ placed) s = .ok d₂ ∧
        Section.Buries d₁.root d₂.root p := by
  have horderly := Section.orderly_documentInvariant.foldlM
    (fun _ _ _ _ h => Section.orderly_documentInvariant.parseDocument h)
    Section.orderly_documentInvariant.root hbefore
  exact persists_or_buried horderly hafter hold hfinal

/-- A file system with one document in it, whose section `a` has a final key. -/
def withFinal : FileSystem :=
  { canonicalize := .ok, contents := ⟨[("/base", .ok "[a]\n!x = 1\ny = 2\n")]⟩ }

/-- The document at `/main` as far as some items, applied after others, bring it. -/
def withFinalAfter (d : Draft) (items : List PlacedItem) : Except ParseError Draft :=
  outcome (items.foldlM (applyItem withFinal (parseDocument withFinal 1)) d) {}

/-- The document that inherits the section `a`. -/
def inheriting : List PlacedItem :=
  [⟨0, .command "inherit" "base"⟩]

/-- After the inherited document there is a final key. -/
theorem exists_final_of_inheriting {d : Draft}
    (h : withFinalAfter { path := "/main", source := "" } inheriting = .ok d) :
    ∃ old, d.root.entryAt? ["a", "x"] = some old ∧ old.attrs.flags.final = true := by
  have hfinal : ((withFinalAfter { path := "/main", source := "" } inheriting).toOption.bind
      fun d => d.root.entryAt? ["a", "x"]).any (fun e => e.attrs.flags.final) = true := by
    decide +kernel
  rw [Except.toOption_eq_some_iff.mpr h, Option.bind_some] at hfinal
  exact (Option.any_eq_true _ _).mp hfinal

/-- Items that enter `a` again and overwrite what they may, which `x` is not part of. -/
def overwritingBeside : List PlacedItem :=
  [⟨14, .header 1 1 "a"⟩, ⟨18, .assign none "y" .deferred "3"⟩, ⟨24, .header 2 2 "b"⟩,
    ⟨30, .assign (some .final) "x" .deferred "4"⟩]

/-- An assignment beside the final key and a header of its section leave it alone. -/
theorem final_persists_unless_buried_beside :
    ∃ d d' old, withFinalAfter { path := "/main", source := "" } inheriting = .ok d ∧
      withFinalAfter d overwritingBeside = .ok d' ∧
      d.root.entryAt? ["a", "x"] = some old ∧ old.attrs.flags.final = true ∧
      (d'.root.entryAt? ["a", "x"] = some old ∨
        ∃ done placed rest d₁ d₂, overwritingBeside = done ++ placed :: rest ∧
          withFinalAfter d done = .ok d₁ ∧
          outcome (applyItem withFinal (parseDocument withFinal 1) d₁ placed) {} = .ok d₂ ∧
          Section.Buries d₁.root d₂.root ["a", "x"]) := by
  obtain ⟨d', hd', -⟩ := Except.exists_of_any_toOption
    (withFinalAfter { path := "/main", source := "" } inheriting >>= fun d =>
      withFinalAfter d overwritingBeside) (fun d' => d'.sections == ["a", "b"]) (by decide +kernel)
  obtain ⟨d, hbefore, hafter⟩ := Except.bind_eq_ok_iff.mp hd'
  obtain ⟨old, hold, hfinal⟩ := exists_final_of_inheriting hbefore
  exact ⟨d, d', old, hbefore, hafter, hold, hfinal,
    final_persists_unless_buried hbefore hafter hold hfinal⟩

/-- An assignment to the section around a final key succeeds, and the key is gone. -/
theorem final_key_buried :
    ∃ d d' old, withFinalAfter { path := "/main", source := "" } inheriting = .ok d ∧
      withFinalAfter d [⟨14, .assign none "a" .deferred "3"⟩] = .ok d' ∧
      d.root.entryAt? ["a", "x"] = some old ∧ old.attrs.flags.final = true ∧
      d'.root.entryAt? ["a", "x"] = none := by
  obtain ⟨d', hd', hgone⟩ := Except.exists_of_any_toOption
    (withFinalAfter { path := "/main", source := "" } inheriting >>= fun d =>
      withFinalAfter d [⟨14, .assign none "a" .deferred "3"⟩])
    (fun d' => (d'.root.entryAt? ["a", "x"]).isNone) (by decide +kernel)
  obtain ⟨d, hbefore, hafter⟩ := Except.bind_eq_ok_iff.mp hd'
  obtain ⟨old, hold, hfinal⟩ := exists_final_of_inheriting hbefore
  exact ⟨d, d', old, hbefore, hafter, hold, hfinal, Option.isNone_iff_eq_none.mp hgone⟩

end Session

end LayeredConfig
