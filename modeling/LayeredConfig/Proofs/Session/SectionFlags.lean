import LayeredConfig.Proofs.Session.OpenSections

/-!
# Keys that hold sections are not marked

Marks stand before scalars, a write takes the marks of its key away, and a merge copies flags
together with the value that they belong to. So every tree is orderly at every point, on both sides
of every merge, and a key that holds a section is neither mandatory nor final nor temporary. Two
things follow. A header can always enter a section that is there, since only final ones refuse it.
And no section is lost when the temporary keys are dropped.
-/

namespace LayeredConfig

namespace Section

variable {s root built evaluated : Section} {p : List String} {e : Entry}

/-- At any depth, a key that holds a section is neither mandatory nor final nor temporary. -/
def SectionsUnmarked (s : Section) : Prop :=
  ∀ p e, s.entryAt? p = some e → e.value.isSubsection = true →
    e.attrs.flags.mandatory = false ∧ e.attrs.flags.final = false ∧
      e.attrs.flags.temporary = false

/-- The tree `root` has sections where `built` has them, and none of them is marked. -/
structure KeepsSections (built root : Section) : Prop where
  unmarked : root.SectionsUnmarked
  isSome_sectionAt? : ∀ p, (root.sectionAt? p).isSome = (built.sectionAt? p).isSome

/-- In an orderly tree no section has a mark, at any depth. -/
theorem sectionsUnmarked_of_orderly (hs : s.Everywhere Orderly) : s.SectionsUnmarked := by
  intro p e he hsection
  have hflags := Entrywise.entryAt? hs he hsection
  rw [hflags]
  exact ⟨rfl, rfl, rfl⟩

/-! ## Completing a tree -/

/-- Evaluation changes neither the attributes of a key nor whether it holds a section. -/
theorem SectionsUnmarked.evaluateAll (hbuilt : built.SectionsUnmarked)
    (h : built.evaluateAll = .ok evaluated) : evaluated.SectionsUnmarked := by
  intro p e' he' hsection
  have hentry := evaluateAll_entryAt? h p
  rw [he'] at hentry
  generalize hold : built.entryAt? p = old at hentry
  cases hentry with
  | some heval =>
    rw [heval.1]
    exact hbuilt p _ hold (evaluateValue_isSubsection heval.2 ▸ hsection)

/-- Evaluation neither makes nor loses sections. -/
theorem isSome_sectionAt?_of_evaluateAll (h : built.evaluateAll = .ok evaluated)
    (p : List String) : (evaluated.sectionAt? p).isSome = (built.sectionAt? p).isSome := by
  have hlayout := congrArg Option.isSome (evaluateAll_layout h p)
  rwa [Option.isSome_map, Option.isSome_map] at hlayout

/-- On the way to a section there are only sections, of which none is temporary. -/
theorem SectionsUnmarked.lastingAlong (hs : s.SectionsUnmarked)
    (h : (s.sectionAt? p).isSome) : s.LastingAlong p := by
  intro q e hq he
  obtain ⟨rest, rfl⟩ := hq
  rw [sectionAt?_append] at h
  have hne : q ≠ [] := by
    rintro rfl
    cases he
  cases hsub : s.sectionAt? q with
  | none =>
    rw [hsub] at h
    cases h
  | some sub =>
    obtain ⟨attrs, hattrs⟩ := exists_entryAt?_of_sectionAt? hne hsub
    obtain rfl := Option.some.inj (hattrs.symm.trans he)
    exact (hs q _ he rfl).2.2

/-- Dropping temporary keys loses no section whose key is unmarked. -/
theorem SectionsUnmarked.dropTemporaryDeep (hkeys : s.Everywhere KeysDistinct)
    (hs : s.SectionsUnmarked) : KeepsSections s s.dropTemporaryDeep := by
  constructor
  · intro p e' he' hsection
    obtain ⟨-, e, he, rfl⟩ := entryAt?_dropTemporaryDeep hkeys he'
    refine hs p e he ?_
    obtain ⟨value, attrs⟩ := e
    cases value with
    | scalar v => cases hsection
    | subsection sub => rfl
  · intro p
    -- Without a temporary key on its path a section stays. With one there is no section there in
    -- the first place, since sections are not temporary.
    by_cases hlasting : s.LastingAlong p
    · rw [sectionAt?_dropTemporaryDeep hkeys hlasting, Option.isSome_map]
    · rw [((restricts_dropTemporaryDeep hkeys).dropped p hlasting).2]
      exact (Bool.eq_false_iff.mpr (mt hs.lastingAlong hlasting)).symm

/-- Completing an orderly tree keeps its sections. -/
theorem KeepsSections.of_finish (hbuilt : built.Everywhere Orderly)
    (h : Session.finish built = .ok root) : KeepsSections built root := by
  obtain ⟨evaluated, heval, rfl⟩ := Session.finish_eq_ok_iff.mp h
  have hkeys := evaluateAll_keysDistinct heval (hbuilt.imp fun _ hs => hs.keysDistinct)
  have hkept := ((sectionsUnmarked_of_orderly hbuilt).evaluateAll heval).dropTemporaryDeep hkeys
  refine ⟨hkept.unmarked, fun p => ?_⟩
  rw [hkept.isSome_sectionAt?, isSome_sectionAt?_of_evaluateAll heval]

end Section

namespace Draft

variable {d : Draft} {frames : List Frame} {offset opening closing : Nat} {name key : String}
  {origin : Origin}

/-- Headers can enter the sections that are there. -/
structure EntersSections (d : Draft) : Prop where
  notRefused : ∀ (frames : List Frame) (offset opening closing : Nat) (name key : String)
      (origin : Origin),
    d.applyHeader frames offset opening closing name ≠
      .error (.writeProtection (.sectionNotWritable key) origin)
  enters : ∀ (frames : List Frame) (offset depth : Nat) (name : String),
    depth ≤ d.sections.length + 1 →
    (d.root.sectionAt? (d.sections.take (depth - 1) ++ [name])).isSome →
    ∃ d', d.applyHeader frames offset depth depth name = .ok d'

/-- A section whose key is not final is not refused to a header. -/
theorem applyHeader_ne_sectionNotWritable (hd : d.IsOpen) (hroot : d.root.SectionsUnmarked) :
    d.applyHeader frames offset opening closing name ≠
      .error (.writeProtection (.sectionNotWritable key) origin) := by
  intro h
  rcases applyHeader_eq_error hd h with
    ⟨-, heq⟩ | ⟨-, -, heq⟩ | ⟨parent, cause, -, hparent, hcause, heq⟩
  · cases heq
  · cases heq
  · cases heq
    rcases enter_eq_error hcause with ⟨sub, attrs, hget, hfinal, -⟩ | ⟨-, hkey⟩
    · have hentry : d.root.entryAt? (d.sections.take (opening - 1) ++ [name]) =
          some ⟨.subsection sub, attrs⟩ := by
        rw [Section.entryAt?_concat, hparent, Option.bind_some, hget]
      rw [(hroot _ _ hentry rfl).2.1] at hfinal
      cases hfinal
    · cases hkey

/-- With unmarked sections, a header can enter every section that is there. -/
theorem entersSections (hd : d.IsOpen) (hroot : d.root.SectionsUnmarked) : d.EntersSections := by
  refine ⟨fun _ _ _ _ _ _ _ => applyHeader_ne_sectionNotWritable hd hroot,
    fun frames offset depth name hdepth hsome => ?_⟩
  cases h : d.applyHeader frames offset depth depth name with
  | ok d' => exact ⟨d', rfl⟩
  | error e =>
    obtain ⟨sub, hsub⟩ := Option.isSome_iff_exists.mp hsome
    -- Balanced and not too deep, the header could only fail where its section is final or no
    -- section.
    rcases applyHeader_eq_error hd h with
      ⟨hne, -⟩ | ⟨-, hlt, -⟩ | ⟨parent, cause, -, hparent, hcause, rfl⟩
    · exact absurd rfl hne
    · omega
    · rcases enter_eq_error hcause with ⟨-, -, -, -, rfl⟩ | ⟨hnone, -⟩
      · exact absurd h (applyHeader_ne_sectionNotWritable hd hroot)
      · rw [Section.sectionAt?_append, hparent, Option.bind_some, Section.sectionAt?_cons] at hsub
        obtain ⟨sub', hsub', -⟩ := Option.bind_eq_some_iff.mp hsub
        obtain ⟨attrs, hget⟩ := Section.subsection?_eq_some_iff.mp hsub'
        rw [hget] at hnone
        cases hnone

end Draft

namespace Session

variable {fs : FileSystem} {mode : Mode} {text path : String} {root : Section}

/-- A parsed text has the sections that its items have built. -/
theorem keepsSections_of_parseText (h : LayeredConfig.parseText fs mode text path = .ok root) :
    ∃ built, outcome (parseDocument fs (fs.contents.size + 1) path text) { mode } = .ok built ∧
      Section.KeepsSections built root := by
  rw [parseText_eq] at h
  obtain ⟨built, hbuilt, hfinish⟩ := Except.bind_eq_ok_iff.mp h
  exact ⟨built, hbuilt, .of_finish (Section.orderly_documentInvariant.parseDocument hbuilt) hfinish⟩

/-- At every point of every document, on both sides of every merge and in every result, the keys
that hold sections are not marked. So headers can enter the sections that are there, and a result
has all the sections that its items have built. -/
theorem section_keys_stay_unmarked (fs : FileSystem) :
    (∀ (depth : Nat) (s : Session) (path source : String) (items : List PlacedItem) (d : Draft),
      outcome (items.foldlM (applyItem fs (parseDocument fs depth)) { path, source }) s = .ok d →
      d.root.SectionsUnmarked ∧ d.EntersSections) ∧
    (∀ (depth : Nat) (s : Session) (path text : String) (included : Section) (writable : Bool),
      outcome (parseDocument fs depth path text) s = .ok included →
      (included.setWritableDeep writable).SectionsUnmarked) ∧
    ∀ (mode : Mode) (path : String) (root : Section),
      (∀ text, LayeredConfig.parseText fs mode text path = .ok root → ∃ built,
        outcome (parseDocument fs (fs.contents.size + 1) path text) { mode } = .ok built ∧
          Section.KeepsSections built root) ∧
      (LayeredConfig.parseFile fs mode path = .ok root → ∃ canonical text built,
        fs.fetch path = .ok (canonical, text) ∧
          outcome (parseDocument fs (fs.contents.size + 1) canonical text) { mode } = .ok built ∧
          Section.KeepsSections built root) := by
  have hinvariant := Section.orderly_documentInvariant
  refine ⟨fun depth s path source items d h => ?_,
    fun depth s path text included writable h => ?_,
    fun mode path root => ⟨fun text => keepsSections_of_parseText, fun h => ?_⟩⟩
  · have hroot := Section.sectionsUnmarked_of_orderly
      (hinvariant.foldlM (fun _ _ _ _ => hinvariant.parseDocument) hinvariant.root h)
    exact ⟨hroot, Draft.entersSections (isOpen_of_foldlM ⟨.root, rfl⟩ h) hroot⟩
  · exact Section.sectionsUnmarked_of_orderly
      (Section.orderly_setWritableDeep (hinvariant.parseDocument h) writable)
  · obtain ⟨canonical, text, hfetch, hparse⟩ := parseFile_eq_ok_iff.mp h
    obtain ⟨built, hbuilt, hkeeps⟩ := keepsSections_of_parseText hparse
    exact ⟨canonical, text, built, hfetch, hbuilt, hkeeps⟩

/-- A file system with a document in which sections take the place of marked texts, among them one
that it inherits. -/
def marking : FileSystem :=
  { canonicalize := .ok
    contents := ⟨[
      ("/main", .ok "~s = plain\n@inherit(part)\n[s]\n[[t]]\n~u = x\n"),
      ("/part", .ok "[s]\n!k = 1\n~t = plain\n")]⟩ }

/-- A document in which temporary keys stand before, beside and inside sections. -/
theorem section_keys_stay_unmarked_marking :
    ∃ d d' root, outcome ((Document.read .config
        "~s = plain\n@inherit(part)\n[s]\n[[t]]\n~u = x\n").items.foldlM
          (applyItem marking (parseDocument marking 2)) { path := "/main", source := "" })
        { mode := .config } = .ok d ∧
      d.root.SectionsUnmarked ∧ d.applyHeader [] 0 2 2 "t" = .ok d' ∧
      LayeredConfig.parseFile marking .config "/main" = .ok root ∧
      (root.sectionAt? ["s", "t"]).isSome ∧ root.SectionsUnmarked := by
  obtain ⟨d, hd, hsections⟩ := Except.exists_of_any_toOption
    (outcome ((Document.read .config
        "~s = plain\n@inherit(part)\n[s]\n[[t]]\n~u = x\n").items.foldlM
          (applyItem marking (parseDocument marking 2)) { path := "/main", source := "" })
        { mode := .config })
    (fun d => d.sections == ["s", "t"] && (d.root.sectionAt? ["s", "t"]).isSome)
    (by decide +kernel)
  obtain ⟨root, hroot, hsection⟩ := Except.exists_of_any_toOption
    (LayeredConfig.parseFile marking .config "/main")
    (fun root => (root.sectionAt? ["s", "t"]).isSome) (by decide +kernel)
  rw [Bool.and_eq_true, beq_iff_eq] at hsections
  obtain ⟨hdocument, -, hresult⟩ := section_keys_stay_unmarked marking
  obtain ⟨hunmarked, henters⟩ := hdocument _ _ _ _ _ d hd
  obtain ⟨d', hd'⟩ := henters.enters [] 0 2 "t" (by rw [hsections.1]; decide)
    (by rw [hsections.1]; exact hsections.2)
  obtain ⟨canonical, text, built, -, -, hkeeps⟩ := (hresult .config "/main" root).2 hroot
  exact ⟨d, d', root, hd, hunmarked, hd', hroot, hsection, hkeeps.unmarked⟩

end Session

end LayeredConfig
