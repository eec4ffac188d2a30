import LayeredConfig.Proofs.Session.Completion
import LayeredConfig.Proofs.Session.Failures
import LayeredConfig.Proofs.Session.Moments

/-!
# The open section is there

A document keeps the names of its open sections beside its tree. An item that is applied has changed
the section at the end of these names, and nothing around it, so they still lead to a section
afterwards. For a header this is the section that it has entered. So the open section is never found
missing, whatever was assigned or merged on the way.
-/

namespace LayeredConfig

namespace Draft

variable {d d' : Draft} {frames : List Frame} {offset opening closing : Nat} {name key : String}
  {origin : Origin} {marker : Option Marker} {op : AssignOp} {raw : String} {writable : Bool}
  {included : Section} {e : Entry}

/-- Entering a section leaves a section at its name. -/
theorem Entered.isSubsection_value {old : Option Entry} (h : Entered name origin old e) :
    ∃ sub, e.value = .subsection sub := by
  cases h with
  | again _ => exact ⟨_, rfl⟩
  | fresh _ overwritten =>
    obtain ⟨-, rfl⟩ := overwritten
    exact ⟨_, rfl⟩

/-- A header opens the section that it has entered. -/
theorem isOpen_of_applyHeader (h : d.applyHeader frames offset opening closing name = .ok d') :
    d'.IsOpen := by
  obtain ⟨-, -, root, hroot, rfl⟩ := applyHeader_eq_ok_iff.mp h
  obtain ⟨parent, parent', -, hentered, hparent'⟩ := hroot.sectionAt?
  obtain ⟨⟨value, attrs⟩, he, hwrites⟩ := (enter_alters _ _).writes hentered
  obtain ⟨sub, rfl⟩ := he.isSubsection_value
  refine ⟨sub, ?_⟩
  rw [Section.sectionAt?_append, hparent', Option.bind_some, Section.sectionAt?_cons,
    Section.subsection?_of_get? hwrites.get?_self]
  rfl

/-- An assignment leaves the open section where it is. -/
theorem isOpen_of_applyAssign (h : d.applyAssign frames offset marker key op raw = .ok d') :
    d'.IsOpen := by
  obtain ⟨value, stored, -, -, root, hroot, rfl⟩ := applyAssign_eq_ok_iff.mp h
  obtain ⟨-, s', -, -, hs'⟩ := hroot.sectionAt?
  exact ⟨s', hs'⟩

/-- Absorbing a tree leaves the open section where it is. -/
theorem isOpen_of_absorb (h : d.absorb origin writable included = .ok d') : d'.IsOpen := by
  obtain ⟨root, hroot, rfl⟩ := absorb_eq_ok_iff.mp h
  obtain ⟨-, s', -, -, hs'⟩ := hroot.sectionAt?
  exact ⟨s', hs'⟩

end Draft

namespace Session

variable {fs : FileSystem} {parse : (path text : String) → SessionM Section} {s : Session}
  {d d' : Draft} {placed : PlacedItem} {items : List PlacedItem}

/-- Whatever kind of item it is, a section is open once it has been applied. -/
theorem isOpen_of_applyItem (h : outcome (applyItem fs parse d placed) s = .ok d') :
    d'.IsOpen := by
  obtain ⟨offset, item⟩ := placed
  cases item with
  | header opening closing name =>
    rw [outcome, run_applyItem_header] at h
    exact Draft.isOpen_of_applyHeader h
  | assign marker key op raw =>
    rw [outcome, run_applyItem_assign] at h
    exact Draft.isOpen_of_applyAssign h
  | command name argument =>
    obtain ⟨writable, path, text, included, -, -, habsorb⟩ := outcome_applyItem_command_eq_ok h
    exact Draft.isOpen_of_absorb habsorb

/-- After any number of items the open section is there. -/
theorem isOpen_of_foldlM (hd : d.IsOpen)
    (h : outcome (items.foldlM (applyItem fs parse) d) s = .ok d') : d'.IsOpen := by
  induction items generalizing d s with
  | nil =>
    obtain rfl := outcome_foldlM_nil_eq_ok_iff.mp h
    exact hd
  | cons placed items ih =>
    obtain ⟨d₁, hplaced, hitems⟩ := outcome_foldlM_cons_eq_ok_iff.mp h
    exact ih (isOpen_of_applyItem hplaced) hitems

/-- At every moment a section is open, and no failure says that it is missing. -/
theorem isOpen_readerInvariant (fs : FileSystem) (mode : Mode) :
    ReaderInvariant fs mode (fun _ r => r.draft.IsOpen) (fun _ => True)
      (fun e => ∀ origin, e ≠ .malformed .sectionLost origin) where
  header hd := by
    refine Except.yields_iff.mpr ⟨fun d' => Draft.isOpen_of_applyHeader, fun e he origin => ?_⟩
    -- With the section open, none of the ways to fail is that it is lost. The same holds of all
    -- other items.
    rcases Draft.applyHeader_eq_error hd he with ⟨-, rfl⟩ | ⟨-, -, rfl⟩ | ⟨_, _, -, -, -, rfl⟩
    all_goals exact nofun
  assign hd := by
    refine Except.yields_iff.mpr ⟨fun d' => Draft.isOpen_of_applyAssign, fun e he origin => ?_⟩
    rcases Draft.applyAssign_eq_error hd he with ⟨x, -, rfl⟩ | ⟨r, rfl⟩ | rfl
    all_goals exact nofun
  opened _ := by
    refine Except.yields_iff.mpr ⟨fun target _ => ⟨.root, rfl⟩, fun e he origin => ?_⟩
    rcases requested_eq_error he with ⟨-, rfl⟩ | ⟨_, _, -, -, rfl⟩ | ⟨_, _, _, -, -, rfl⟩
    all_goals exact nofun
  absorbed hd _ _ := by
    refine Except.yields_iff.mpr ⟨fun d' => Draft.isOpen_of_absorb, fun e he origin => ?_⟩
    obtain ⟨cause, rfl⟩ := Draft.absorb_eq_error hd he
    exact nofun
  ended _ := by
    refine Except.yields_iff.mpr ⟨fun _ _ => trivial, fun e he origin => ?_⟩
    obtain ⟨offset, -, rfl⟩ := ended_eq_error he
    exact nofun

/-- No text can be parsed up to a point at which the open section is lost. -/
theorem parseText_ne_sectionLost (fs : FileSystem) (mode : Mode) (text path : String)
    (origin : Origin) :
    LayeredConfig.parseText fs mode text path ≠ .error (.malformed .sectionLost origin) := by
  intro h
  rw [parseText_eq] at h
  rcases Except.bind_eq_error_iff.mp h with h | ⟨built, -, h⟩
  · have hstart : (Reader.opened mode path text).draft.IsOpen := ⟨.root, rfl⟩
    have hparse := (isOpen_readerInvariant fs mode).parseDocument hstart
    exact (Except.yields_iff.mp hparse).2 _ h origin rfl
  · obtain ⟨r, -, heq⟩ := finish_eq_error_iff.mp h
    cases heq

/-- However headers, assignments and included documents follow one another, the open section of a
document is there after each of its items, at the end of a chain of sections one inside the other,
and no parse fails because it is missing. -/
theorem sections_stay_open (fs : FileSystem) :
    (∀ (depth : Nat) (s : Session) (path source : String) (items : List PlacedItem) (d : Draft),
      outcome (items.foldlM (applyItem fs (parseDocument fs depth)) { path, source }) s = .ok d →
      ∃ sub, d.root.sectionAt? d.sections = some sub) ∧
    ∀ (mode : Mode) (path : String) (origin : Origin),
      (∀ text : String,
        LayeredConfig.parseText fs mode text path ≠ .error (.malformed .sectionLost origin)) ∧
      LayeredConfig.parseFile fs mode path ≠ .error (.malformed .sectionLost origin) := by
  refine ⟨fun depth s path source items d => isOpen_of_foldlM ⟨.root, rfl⟩,
    fun mode path origin => ⟨fun text => parseText_ne_sectionLost fs mode text path origin, ?_⟩⟩
  -- A file is parsed as its text, unless it cannot be read.
  cases hfetch : fs.fetch path with
  | error cause =>
    rw [parseFile_of_fetch_error hfetch]
    intro h
    cases h
  | ok file =>
    rw [parseFile_of_fetch hfetch]
    exact parseText_ne_sectionLost fs mode file.2 file.1 origin

/-- A file system with a document that defines sections, and one that overwrites one of them by a
text. -/
def clashing : FileSystem :=
  { canonicalize := .ok
    contents := ⟨[
      ("/part", .ok "[s]\nk = 1\n[[t]]\n"),
      ("/texts", .ok "s = plain\n")]⟩ }

/-- Two inherited documents of which one makes a section of a key and the other a text, with headers
for it afterwards. -/
theorem sections_stay_open_clashing :
    ∃ d, outcome ((Document.read .config
        "[a]\n@inherit(part)\n@inherit(texts)\n[[s]]\nx = 1\n[[[t]]]\n").items.foldlM
          (applyItem clashing (parseDocument clashing 1)) { path := "/main", source := "" })
        { mode := .config } = .ok d ∧
      d.sections = ["a", "s", "t"] ∧
      ∃ sub, d.root.sectionAt? d.sections = some sub := by
  obtain ⟨d, hd, hsections⟩ := Except.exists_of_any_toOption
    (outcome ((Document.read .config
        "[a]\n@inherit(part)\n@inherit(texts)\n[[s]]\nx = 1\n[[[t]]]\n").items.foldlM
          (applyItem clashing (parseDocument clashing 1)) { path := "/main", source := "" })
        { mode := .config })
    (fun d => d.sections == ["a", "s", "t"]) (by decide +kernel)
  exact ⟨d, hd, beq_iff_eq.mp hsections, (sections_stay_open clashing).1 _ _ _ _ _ d hd⟩

end Session

end LayeredConfig
