import LayeredConfig.Proofs.Section.Append
import LayeredConfig.Proofs.Section.Attributes
import LayeredConfig.Proofs.Session.Invariants

/-!
# What an included document leaves open

Before the tree of an included document is merged in, all of its keys are given or denied the
permission to overwrite them. Each key then takes one of three ways into the open section: it is
copied, it replaces what is there, or it is a section that is merged in turn. On all of them the
flags of the source win (`Absorbed.brought`), at every depth, so that the flags a key has got before
the merge are those that it has afterwards, whatever the section held. From these flags it follows
which of the keys may be written again.
-/

namespace LayeredConfig

namespace Section

variable {dst src out s : Section} {p : List String} {e e' : Entry}
  {o : Option Entry}

/-! ## The source of a merge -/

/-- The entry `e` of the source of a merge is in the outcome as `e'`. -/
structure Brought (e e' : Entry) : Prop where
  shape : e'.value.isSubsection = e.value.isSubsection
  scalar : ∀ v, e.value = .scalar v → e'.value = .scalar v
  flags : e'.attrs.flags = e.attrs.flags

/-- An entry that is copied is brought as it is. -/
theorem Brought.refl (e : Entry) : Brought e e :=
  ⟨rfl, fun _ h => h, rfl⟩

/-- However an entry gets into the destination, it is brought with its shape, its text and its
flags. -/
theorem Absorbed.brought (h : Absorbed e o e') : Brought e e' := by
  refine ⟨h.isSubsection_eq, fun v hv => ?_, h.flags_eq⟩
  cases h with
  | copied => exact hv
  | overwritten _ _ => exact hv
  | descended _ hvalue _ =>
    rw [hvalue] at hv
    cases hv

/-- Every key of the source of a merge is in the outcome, at any depth. -/
theorem exists_brought_of_merge (hsrc : src.Everywhere KeysDistinct) (h : dst.merge src = .ok out)
    (he : src.entryAt? p = some e) : ∃ e', out.entryAt? p = some e' ∧ Brought e e' := by
  induction p generalizing dst src out with
  | nil => cases he
  | cons k p ih =>
    obtain ⟨-, -, hget⟩ := merge_spec hsrc.holds h
    have hat := hget k
    by_cases hp : p = []
    · subst hp
      rw [entryAt?_singleton] at he
      rw [he] at hat
      obtain ⟨e', habsorbed, hout⟩ := hat
      exact ⟨e', by rw [entryAt?_singleton, hout], habsorbed.brought⟩
    · rw [entryAt?_cons src k hp] at he
      obtain ⟨sub, hsub, he⟩ := Option.bind_eq_some_iff.mp he
      obtain ⟨attrs, hnew⟩ := subsection?_eq_some_iff.mp hsub
      rw [hnew] at hat
      obtain ⟨e₀, habsorbed, hout⟩ := hat
      rw [entryAt?_cons out k hp]
      -- A section that was copied or has replaced something is in the result as it was. Only one
      -- that was merged in turn needs the induction.
      generalize dst.entries.get? k = old at habsorbed
      cases habsorbed with
      | copied =>
        rw [subsection?_of_get? hout]
        exact ⟨e, he, .refl e⟩
      | overwritten _ _ =>
        rw [subsection?_of_get? hout]
        exact ⟨e, he, .refl e⟩
      | descended _ hvalue merged =>
        cases hvalue
        rw [subsection?_of_get? hout]
        exact ih (hsrc.down hsub) merged he

/-! ## Writing again -/

/-- Any value may be written under the key at the end of a path. -/
def Overwritable (s : Section) (p : List String) : Prop :=
  ∃ path key, p = path ++ [key] ∧ ∀ value, ∃ s', UpdatesAt (·.set key value) path s s'

/-- A key may be written if and only if it is not protected, however deep it lies. -/
theorem overwritable_iff (he : s.entryAt? p = some e) :
    s.Overwritable p ↔ e.attrs.isProtected = false := by
  constructor
  · -- a write that is possible for every value is possible for the present one
    rintro ⟨path, key, rfl, hwrite⟩
    obtain ⟨s', hs'⟩ := hwrite e.value
    obtain ⟨sub, sub', hsub, hset, -⟩ := hs'.sectionAt?
    obtain ⟨e', ⟨hfree, -⟩, -⟩ := (set_alters key e.value).writes hset
    rw [entryAt?_concat, hsub, Option.bind_some] at he
    rwa [he, Option.any_some] at hfree
  · intro hfree
    rcases List.eq_nil_or_concat' p with rfl | ⟨path, key, rfl⟩
    · cases he
    rw [entryAt?_concat] at he
    obtain ⟨sub, hsub, he⟩ := Option.bind_eq_some_iff.mp he
    refine ⟨path, key, rfl, fun value => ?_⟩
    obtain ⟨sub', hset, -⟩ := (set_alters key value).succeeds (s := sub) ⟨by
      rwa [he, Option.any_some], rfl⟩
    exact ⟨_, updateAt_eq hsub hset⟩

/-- Without the permission to overwrite it, a key is protected unless it is temporary. -/
theorem isProtected_of_not_writable {flags : Flags} (htemporary : flags.temporary = false) :
    Flags.isProtected { flags with writable := false } = true := by
  rw [Flags.isProtected, htemporary]
  exact Bool.or_true _

/-- With that permission, it is not protected unless it is final. -/
theorem isProtected_of_writable {flags : Flags} (hfinal : flags.final = false) :
    Flags.isProtected { flags with writable := true } = false := by
  rw [Flags.isProtected, hfinal, Bool.not_true, Bool.and_false]
  rfl

/-- An entry with other attributes has the same shape and, if it is a scalar, the same text. -/
theorem Brought.of_mapAttrsEntry {f : KeyAttrs → KeyAttrs} (h : Brought (mapAttrsEntry f e) e') :
    e'.value.isSubsection = e.value.isSubsection ∧
      (∀ v, e.value = .scalar v → e'.value = .scalar v) ∧ e'.attrs.flags = (f e.attrs).flags := by
  obtain ⟨value, attrs⟩ := e
  refine ⟨h.shape.trans ?_, fun v hv => h.scalar v ?_, h.flags⟩
  · cases value <;> rfl
  · rw [mapAttrsEntry, show value = .scalar v from hv, mapAttrsValue]

end Section

/-! ## Commands -/

namespace Session

open Section

variable {fs : FileSystem} {s : Session} {d d' : Draft} {depth offset : Nat}
  {name argument : String} {writable : Bool}

/-- Only `inherit` makes the keys that it brings in writable. -/
theorem grantsWriting?_eq_some_iff :
    grantsWriting? name = some writable ↔
      (name = "include" ∧ writable = false) ∨ (name = "inherit" ∧ writable = true) := by
  unfold grantsWriting?
  split <;> simp_all [eq_comm]

/-- After a command that succeeds, the open section has every key of the tree that the command has
brought in, with the shape, the text and the flags that it has there, except that an `include` takes
the permission to overwrite it and an `inherit` gives it. So what is included and not temporary is
protected, and what is inherited and not final may be written. -/
theorem brought_keys_permissions
    (h : outcome (applyItem fs (parseDocument fs depth) d ⟨offset, .command name argument⟩) s =
      .ok d') :
    ∃ writable path text included current,
      requested fs d s.frames offset name argument = .ok (writable, path, text) ∧
      outcome (following ⟨d.path, d.position offset⟩ (parseDocument fs depth path text)) s =
        .ok included ∧
      ((name = "include" ∧ writable = false) ∨ (name = "inherit" ∧ writable = true)) ∧
      d'.sections = d.sections ∧ d'.root.sectionAt? d.sections = some current ∧
      ∀ p e, included.entryAt? p = some e → ∃ e', current.entryAt? p = some e' ∧
        e'.value.isSubsection = e.value.isSubsection ∧
        (∀ v, e.value = .scalar v → e'.value = .scalar v) ∧
        e'.attrs.flags = { e.attrs.flags with writable } ∧
        (name = "include" → e.attrs.flags.temporary = false → e'.attrs.isProtected = true) ∧
        (name = "inherit" → e.attrs.flags.final = false → current.Overwritable p) := by
  obtain ⟨writable, path, text, included, hrequested, hincluded, habsorb⟩ :=
    outcome_applyItem_command_eq_ok h
  have hname := grantsWriting?_eq_some_iff.mp (requested_eq_ok_iff.mp hrequested).1
  have horderly := orderly_documentInvariant.parseDocument hincluded
  have hdistinct := (orderly_setWritableDeep horderly writable).imp fun _ h => h.keysDistinct
  obtain ⟨root, hroot, rfl⟩ := Draft.absorb_eq_ok_iff.mp habsorb
  obtain ⟨sub, current, -, hmerge, hcurrent⟩ := hroot.sectionAt?
  refine ⟨writable, path, text, included, current, hrequested, hincluded, hname, rfl, hcurrent,
    fun p e he => ?_⟩
  -- The flags are set before the merge, and the merge brings them along.
  rw [setWritableDeep_eq_mapAttrs] at hmerge hdistinct
  obtain ⟨e', he', hbrought⟩ := exists_brought_of_merge (p := p) (e := mapAttrsEntry _ e) hdistinct
    hmerge (by rw [entryAt?_mapAttrs, he, Option.map_some])
  obtain ⟨hshape, hscalar, hflags⟩ := hbrought.of_mapAttrsEntry
  replace hflags : e'.attrs.flags = { e.attrs.flags with writable } := hflags
  refine ⟨e', he', hshape, hscalar, hflags, ?_, ?_⟩
  · -- an included key is protected unless it is temporary
    rintro rfl htemporary
    obtain ⟨-, rfl⟩ := hname.resolve_right (by simp)
    rw [KeyAttrs.isProtected, hflags]
    exact isProtected_of_not_writable htemporary
  · -- an inherited key may be written unless it is final
    rintro rfl hfinal
    obtain ⟨-, rfl⟩ := hname.resolve_left (by simp)
    rw [overwritable_iff he', KeyAttrs.isProtected, hflags]
    exact isProtected_of_writable hfinal

/-- A file system with one document, of whose keys one is final. -/
def lending : FileSystem :=
  { canonicalize := .ok, contents := ⟨[("/part", .ok "[a]\n!x = 1\ny = 2\n")]⟩ }

/-- A document that brings it in, and has one of its keys already. -/
def borrowing : Draft :=
  { path := "/main", source := "@inherit \"part\"\n"
    root := ⟨none, ⟨[("a", ⟨.subsection ⟨some "a", ⟨[
      ("y", ⟨.scalar (.text "0"), { flags := { temporary := true } }⟩),
      ("z", ⟨.scalar (.text "0"), {}⟩)]⟩⟩, { flags := { writable := true } }⟩)]⟩⟩ }

/-- An inherited document with a final key and one that may be overwritten. -/
theorem brought_keys_permissions_lending :
    ∃ d' current e', outcome (applyItem lending (parseDocument lending 1) borrowing
        ⟨0, .command "inherit" "part"⟩) {} = .ok d' ∧
      d'.root.sectionAt? [] = some current ∧ current.entryAt? ["a", "y"] = some e' ∧
      e'.value = .scalar (.text "2") ∧ e'.attrs.flags = { writable := true } ∧
      current.Overwritable ["a", "y"] := by
  obtain ⟨d', hrun, -⟩ := Except.exists_of_any_toOption
    (outcome (applyItem lending (parseDocument lending 1) borrowing
      ⟨0, .command "inherit" "part"⟩) {}) (fun _ => true) (by decide +kernel)
  obtain ⟨writable, path, text, included, current, hrequested, hincluded, -, -, hcurrent, hkeys⟩ :=
    brought_keys_permissions hrun
  have hpart : requested lending borrowing [] 0 "inherit" "part" =
      .ok (true, "/part", "[a]\n!x = 1\ny = 2\n") := by rfl
  cases hrequested.symm.trans hpart
  have hentry : ((outcome (following ⟨borrowing.path, borrowing.position 0⟩
      (parseDocument lending 1 "/part" "[a]\n!x = 1\ny = 2\n")) {}).toOption.bind
        fun included => included.entryAt? ["a", "y"]).any
      (fun e => e.value = .scalar (.text "2") ∧ e.attrs.flags = {}) = true := by decide +kernel
  rw [Except.toOption_eq_some_iff.mpr hincluded, Option.bind_some] at hentry
  obtain ⟨e, he, hproperties⟩ := (Option.any_eq_true _ _).mp hentry
  obtain ⟨hvalue, hflags⟩ := of_decide_eq_true hproperties
  obtain ⟨e', he', -, hscalar, hflags', -, hopen⟩ := hkeys ["a", "y"] e he
  exact ⟨d', current, e', hrun, hcurrent, he', hscalar _ hvalue, by rw [hflags', hflags],
    hopen rfl (by rw [hflags])⟩

end Session

end LayeredConfig
