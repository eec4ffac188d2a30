import LayeredConfig.Proofs.Document.Places
import LayeredConfig.Proofs.Session.OpenSections

/-!
# Back traces follow includes

The trail of an origin is put together from the frames of the session and the place of an item. The
statements of this file say what it shows: a chain of commands, each of which stands in its file and
names the next one, and at the end the item that is recorded or that has failed. For histories this
holds at every point of every document, since a document only records the places of its own items
and takes over what the documents that it includes have recorded.
-/

namespace LayeredConfig

/-- The name under which an item defines something, a section or a value. -/
def Item.definedKey? : Item → Option String
  | .header _ _ name => some name
  | .assign _ key _ _ => some key
  | .command _ _ => none

namespace Provenance

variable {P : Origin → Prop} {history older newer : Provenance} {origin : Origin}

/-- There are definitions, and all of them satisfy `P`. -/
def MadeOf (P : Origin → Prop) (history : Provenance) : Prop :=
  history.origins ≠ [] ∧ ∀ origin ∈ history.origins, P origin

/-- A history whose origins satisfy a property keeps it if the origin that is added satisfies it,
too. -/
theorem madeOf_push (h : ∀ o ∈ history.origins, P o) (ho : P origin) :
    (history.push origin).MadeOf P := by
  refine ⟨List.append_ne_nil_of_right_ne_nil _ (List.cons_ne_nil _ _), fun o hmem => ?_⟩
  rcases List.mem_append.mp hmem with hmem | hmem
  · exact h o hmem
  · rw [List.mem_singleton.mp hmem]
    exact ho

/-- Two histories with the property make up one with it. -/
theorem MadeOf.append (h : older.MadeOf P) (h' : newer.MadeOf P) : (older ++ newer).MadeOf P := by
  refine ⟨List.append_ne_nil_of_left_ne_nil h.1 _, fun o hmem => ?_⟩
  rcases List.mem_append.mp hmem with hmem | hmem
  · exact h.2 o hmem
  · exact h'.2 o hmem

end Provenance

namespace Session

/-! ## Chains of includes -/

/-- An item of a document and the byte at which it starts. -/
def Stands (mode : Mode) (text : String) (offset : Nat) (item : Item) : Prop :=
  ⟨offset, item⟩ ∈ (readText mode text).items

/-- A position in the document at `path` with a row and a column, those of the byte `offset`. -/
structure Marks (path text : String) (offset : Nat) (pos : SourcePos) : Prop where
  eq : pos = .inSource path (sourceOf text) offset
  located : ∃ location, pos.location = some location ∧ location.offset = offset

/-- The trail leads from the document at `top` to the one at `path`: each of its positions is the
start of a command that includes or inherits the file in which the next one lies, and the last
command includes or inherits the document at `path`. -/
inductive LeadsTo (fs : FileSystem) (mode : Mode) (top topText : String) :
    (trail : List SourcePos) → (path text : String) → Prop
  | outermost : LeadsTo fs mode top topText [] top topText
  | included {trail : List SourcePos} {pos : SourcePos} {offset : Nat}
      {path text name argument target targetText : String}
      (outer : LeadsTo fs mode top topText trail path text)
      (stands : Stands mode text offset (.command name argument))
      (granted : (grantsWriting? name).isSome)
      (fetched : fs.fetch (Path.join (Path.parent path) argument) = .ok (target, targetText))
      (marks : Marks path text offset pos) :
      LeadsTo fs mode top topText (trail ++ [pos]) target targetText

/-- The trail leads to the byte `offset` of the document at `path`, through the includes on the way
from the document at `top`. -/
structure Traces (fs : FileSystem) (mode : Mode) (top topText : String) (trail : List SourcePos)
    (path text : String) (offset : Nat) : Prop where
  chain : ∃ outer pos, LeadsTo fs mode top topText outer path text ∧
    Marks path text offset pos ∧ trail = outer ++ [pos]
  located : ∀ pos ∈ trail, pos.location.isSome
  first : trail.head?.map (·.file) = some top

/-- The origin is the place of an item that defines the key. -/
def DefinedAt (fs : FileSystem) (mode : Mode) (top topText key : String) (origin : Origin) : Prop :=
  ∃ path text offset item, Traces fs mode top topText origin.trail path text offset ∧
    Stands mode text offset item ∧ item.definedKey? = some key

/-- What stands at a place of the document at `path` is what the error is about. -/
inductive Concerns (fs : FileSystem) (mode : Mode) (path text : String) (offset : Nat) :
    ParseError → Prop
  | malformed {origin : Origin} (stops : (readText mode text).fault = some offset) :
      Concerns fs mode path text offset (.malformed .malformed origin)
  | unbalancedHeader {opening closing : Nat} {name : String} {origin : Origin}
      (stands : Stands mode text offset (.header opening closing name))
      (unbalanced : opening ≠ closing) :
      Concerns fs mode path text offset (.malformed .unbalancedHeader origin)
  | headerTooDeep {depth : Nat} {name : String} {origin : Origin}
      (stands : Stands mode text offset (.header depth depth name)) :
      Concerns fs mode path text offset (.malformed .headerTooDeep origin)
  | unknownCommand {name argument : String} {origin : Origin}
      (stands : Stands mode text offset (.command name argument))
      (unknown : grantsWriting? name = none) :
      Concerns fs mode path text offset (.malformed (.unknownCommand name) origin)
  | badReference {marker : Option Marker} {key raw : String} {op : AssignOp} {e : EmptySegment}
      {origin : Origin} (stands : Stands mode text offset (.assign marker key op raw))
      (unreadable : Template.parse raw = .error e) :
      Concerns fs mode path text offset (.malformed (.badReference e) origin)
  | fileAccess {name argument : String} {cause : FileError} {origin : Origin}
      (stands : Stands mode text offset (.command name argument))
      (granted : (grantsWriting? name).isSome)
      (unreadable : fs.fetch (Path.join (Path.parent path) argument) = .error cause) :
      Concerns fs mode path text offset
        (.fileAccess (Path.join (Path.parent path) argument) cause origin)
  | cyclicInclude {name argument target targetText : String} {origin : Origin}
      (stands : Stands mode text offset (.command name argument))
      (granted : (grantsWriting? name).isSome)
      (fetched : fs.fetch (Path.join (Path.parent path) argument) = .ok (target, targetText)) :
      Concerns fs mode path text offset (.cyclicInclude target origin)
  | refusedItem {item : Item} {key : String} {cause : SectionError} {origin : Origin}
      (stands : Stands mode text offset item) (defines : item.definedKey? = some key)
      (refused : cause = .keyNotWritable key ∨ cause = .sectionNotWritable key) :
      Concerns fs mode path text offset (.writeProtection cause origin)
  | refusedMerge {name argument : String} {cause : SectionError} {origin : Origin}
      (stands : Stands mode text offset (.command name argument))
      (granted : (grantsWriting? name).isSome) :
      Concerns fs mode path text offset (.writeProtection cause origin)

/-- An error that does not come from a reference has the place of what it is about. -/
def RaisedAt (fs : FileSystem) (mode : Mode) (top topText : String) (e : ParseError) : Prop :=
  (∃ r, e = .reference r) ∨ ∃ origin path text offset, e.origin? = some origin ∧
    Traces fs mode top topText origin.trail path text offset ∧ Concerns fs mode path text offset e

/-- Every key of the tree has a history, made of the places of items that define the key. -/
def Records (fs : FileSystem) (mode : Mode) (top topText : String) (root : Section) : Prop :=
  ∀ p k e, root.entryAt? (p ++ [k]) = some e →
    e.attrs.history.MadeOf (DefinedAt fs mode top topText k)

variable {fs : FileSystem} {mode : Mode} {top topText path text key : String}
  {trail : List SourcePos} {pos : SourcePos} {offset : Nat} {item : Item} {d : Draft}
  {frames : List Frame} {items : List PlacedItem} {placed : PlacedItem} {fault : Option Nat}

/-- The position of a place of a text marks the place. -/
theorem marks_of_mem_places (h : offset ∈ (readText mode text).places) :
    Marks path text offset (.inSource path (sourceOf text) offset) :=
  ⟨rfl, Document.exists_location_of_mem_places h⟩

/-- An item stands at one of the places of its text. -/
theorem Stands.mem_places (h : Stands mode text offset item) :
    offset ∈ (readText mode text).places :=
  List.mem_append_left _ (List.mem_map.mpr ⟨_, h, rfl⟩)

/-- Every position on the way shows a line. -/
theorem LeadsTo.isSome_location (h : LeadsTo fs mode top topText trail path text) :
    ∀ pos ∈ trail, pos.location.isSome := by
  induction h with
  | outermost => exact nofun
  | included _ _ _ _ marks ih =>
    intro pos hpos
    rcases List.mem_append.mp hpos with hpos | hpos
    · exact ih pos hpos
    · rw [List.mem_singleton.mp hpos]
      obtain ⟨location, hlocation, -⟩ := marks.located
      exact Option.isSome_of_eq_some hlocation

/-- A mark is in the file that it marks. -/
theorem Marks.file_eq (h : Marks path text offset pos) : pos.file = path := by
  rw [h.eq, SourcePos.inSource]
  split <;> rfl

/-- A trail starts in the outermost document, which it leaves by its first position if at all. -/
theorem LeadsTo.first (h : LeadsTo fs mode top topText trail path text) :
    (trail.head?.map (·.file)).getD path = top := by
  induction h with
  | outermost => rfl
  | @included trail _ _ _ _ _ _ _ _ _ _ _ _ marks ih =>
    -- the new position is the first one only if no other was there
    cases trail with
    | nil => exact marks.file_eq.trans ih
    | cons pos trail => exact ih

/-- A chain of commands down to a document, with a place of it at the end, is a trace of the
place. -/
theorem LeadsTo.traces (h : LeadsTo fs mode top topText trail path text)
    (hoffset : offset ∈ (readText mode text).places) :
    Traces fs mode top topText (trail ++ [.inSource path (sourceOf text) offset]) path text
      offset := by
  have hmarks : Marks path text offset _ := marks_of_mem_places hoffset
  -- The chain is given. Its positions have lines, and the first of them is in the outermost file.
  refine ⟨⟨trail, _, h, hmarks, rfl⟩, fun pos hpos => ?_, ?_⟩
  · rcases List.mem_append.mp hpos with hpos | hpos
    · exact h.isSome_location pos hpos
    · rw [List.mem_singleton.mp hpos]
      obtain ⟨location, hlocation, -⟩ := hmarks.located
      exact Option.isSome_of_eq_some hlocation
  · have hfirst := h.first
    cases trail with
    | nil => exact congrArg some (hmarks.file_eq.trans hfirst)
    | cons pos trail => exact congrArg some hfirst

/-! ## At every moment -/

/-- What the tree of a document records, everywhere in the tree. -/
abbrev Recording (fs : FileSystem) (mode : Mode) (top topText : String) : Section → Prop :=
  Section.Everywhere (Section.EachEntry fun key _ attrs =>
    attrs.history.MadeOf (DefinedAt fs mode top topText key))

/-- A document that is read: the frames lead to it, its items are still to come from some point on,
and its tree records places of items. -/
structure Follows (fs : FileSystem) (mode : Mode) (top topText text : String)
    (frames : List Frame) (r : Reader) : Prop where
  reached : LeadsTo fs mode top topText (frames.map (·.position)) r.draft.path text
  source : r.draft.source = sourceOf text
  items : r.items <:+ (readText mode text).items
  fault : r.fault = (readText mode text).fault
  isOpen : r.draft.IsOpen
  recording : Recording fs mode top topText r.draft.root

namespace Follows

variable {r : Reader}

/-- A byte of the document has the trail of the frames, and itself at the end. -/
theorem traces (h : Follows fs mode top topText text frames r)
    (hoffset : offset ∈ (readText mode text).places) :
    Traces fs mode top topText (r.draft.origin frames offset).trail r.draft.path text offset := by
  have htraces := h.reached.traces hoffset
  rwa [← h.source] at htraces

/-- The item that is next stands in the text of the document. -/
theorem stands (h : Follows fs mode top topText text frames ⟨d, ⟨offset, item⟩ :: items, fault⟩) :
    Stands mode text offset item :=
  h.items.subset List.mem_cons_self

/-- The item that comes next defines its key at its place, whatever sections are open there. -/
theorem definedAt (h : Follows fs mode top topText text frames ⟨d, ⟨offset, item⟩ :: items, fault⟩)
    (hkey : item.definedKey? = some key) (sections : List String) :
    DefinedAt fs mode top topText key ({ d with sections }.origin frames offset) :=
  ⟨d.path, text, offset, item, h.traces h.stands.mem_places, h.stands, hkey⟩

/-- One item further, with another tree. -/
theorem advance (h : Follows fs mode top topText text frames ⟨d, placed :: items, fault⟩)
    {root : Section} {sections : List String} (hopen : { d with root, sections }.IsOpen)
    (hroot : Recording fs mode top topText root) :
    Follows fs mode top topText text frames ⟨{ d with root, sections }, items, fault⟩ where
  reached := h.reached
  source := h.source
  items := (List.suffix_cons placed items).trans h.items
  fault := h.fault
  isOpen := hopen
  recording := hroot

/-- An error with the origin of a place is one that is raised there. -/
theorem raisedAt (h : Follows fs mode top topText text frames r)
    (hoffset : offset ∈ (readText mode text).places) {e : ParseError} {sections : List String}
    (horigin : e.origin? = some ({ r.draft with sections }.origin frames offset))
    (hconcerns : Concerns fs mode r.draft.path text offset e) : RaisedAt fs mode top topText e :=
  Or.inr ⟨_, r.draft.path, text, offset, horigin, h.traces hoffset, hconcerns⟩

end Follows

/-- The history that a key has so far is made of definitions of the key, also when there is none. -/
theorem Recording.origins_historyOf {s : Section} (hs : Recording fs mode top topText s) :
    ∀ origin ∈ (Section.historyOf (s.entries.get? key)).origins,
      DefinedAt fs mode top topText key origin := by
  cases hget : s.entries.get? key with
  | none => exact nofun
  | some e => exact (hs.holds.entry hget).2

/-- A document that is opened is followed from its first item on. -/
theorem follows_opened {path : String} (h : LeadsTo fs mode top topText trail path text)
    (hframes : frames.map (·.position) = trail) :
    Follows fs mode top topText text frames (.opened mode path text) where
  reached := hframes ▸ h
  source := rfl
  items := List.suffix_rfl
  fault := rfl
  isOpen := ⟨.root, rfl⟩
  recording := Section.eachEntry_of_isEmpty none

namespace Follows

variable {opening closing : Nat} {name argument raw : String} {marker : Option Marker}
  {op : AssignOp} {writable : Bool} {included : Section}

/-- A header records its place in the history of its section, or fails at this place. -/
theorem applyHeader
    (h : Follows fs mode top topText text frames
      ⟨d, ⟨offset, .header opening closing name⟩ :: items, fault⟩) :
    Except.Yields (RaisedAt fs mode top topText)
      (fun d' => Follows fs mode top topText text frames ⟨d', items, fault⟩)
      (d.applyHeader frames offset opening closing name) := by
  refine Except.yields_iff.mpr ⟨fun d' hd' => ?_, fun e he => ?_⟩
  · have hopen := Draft.isOpen_of_applyHeader hd'
    obtain ⟨-, -, root, hroot, rfl⟩ := Draft.applyHeader_eq_ok_iff.mp hd'
    refine h.advance hopen
      (Section.eachEntry_of_updatesAt (fun parent parent' hparent hentered => ?_) h.recording hroot)
    obtain ⟨entry, hentry, hwrites⟩ := (Draft.enter_alters _ _).writes hentered
    -- the place is recorded once the deeper sections are closed, which its trail does not show
    have hdefined := h.definedAt rfl (d.sections.take (opening - 1))
    exact Section.eachEntry_of_entered
      (Provenance.madeOf_push (Recording.origins_historyOf hparent) hdefined)
      (fun attrs hattrs => Provenance.madeOf_push hattrs.2 hdefined) hparent hentry hwrites
  · have hplace := h.stands.mem_places
    -- For a failure it only matters which origin goes with it, and that is the one of the item.
    rcases Draft.applyHeader_eq_error h.isOpen he with
      ⟨hunbalanced, rfl⟩ | ⟨rfl, -, rfl⟩ | ⟨parent, cause, -, -, hcause, rfl⟩
    · exact h.raisedAt hplace rfl (.unbalancedHeader h.stands hunbalanced)
    · exact h.raisedAt hplace rfl (.headerTooDeep h.stands)
    · refine h.raisedAt hplace rfl (.refusedItem h.stands rfl ?_)
      rcases Draft.enter_eq_error hcause with ⟨-, -, -, -, rfl⟩ | ⟨-, rfl⟩
      · exact Or.inr rfl
      · exact Or.inl rfl

/-- An assignment records its place in the history of its key, or fails at this place. -/
theorem applyAssign
    (h : Follows fs mode top topText text frames
      ⟨d, ⟨offset, .assign marker key op raw⟩ :: items, fault⟩) :
    Except.Yields (RaisedAt fs mode top topText)
      (fun d' => Follows fs mode top topText text frames ⟨d', items, fault⟩)
      (d.applyAssign frames offset marker key op raw) := by
  refine Except.yields_iff.mpr ⟨fun d' hd' => ?_, fun e he => ?_⟩
  · have hopen := Draft.isOpen_of_applyAssign hd'
    obtain ⟨value, stored, -, -, root, hroot, rfl⟩ := Draft.applyAssign_eq_ok_iff.mp hd'
    refine h.advance hopen
      (Section.eachEntry_of_updatesAt (fun s s' hs hwritten => ?_) h.recording hroot)
    obtain ⟨entry, hentry, hwrites⟩ := (Section.setAt_modifyFlags_alters _ _ _ _).writes hwritten
    exact Section.eachEntry_of_overwritten rfl
      (Provenance.madeOf_push (Recording.origins_historyOf hs) (h.definedAt rfl d.sections))
      hs hentry hwrites
  · have hplace := h.stands.mem_places
    rcases Draft.applyAssign_eq_error h.isOpen he with ⟨x, hx, rfl⟩ | hreference | rfl
    · exact h.raisedAt hplace rfl (.badReference h.stands hx)
    · exact Or.inl hreference
    · exact h.raisedAt hplace rfl (.refusedItem h.stands rfl (Or.inl rfl))

/-- A command leads on to the document that it names, or fails at its place. -/
theorem requested
    (h : Follows fs mode top topText text frames
      ⟨d, ⟨offset, .command name argument⟩ :: items, fault⟩) :
    Except.Yields (RaisedAt fs mode top topText)
      (fun target => Follows fs mode top topText target.2.2
        (frames ++ [⟨d.path, d.position offset⟩]) (.opened mode target.2.1 target.2.2))
      (requested fs d frames offset name argument) := by
  have hplace := h.stands.mem_places
  refine Except.yields_iff.mpr ⟨fun target htarget => ?_, fun e he => ?_⟩
  · -- the chain of commands is one longer, as are the frames
    obtain ⟨hgranted, hfetch, -⟩ := requested_eq_ok_iff.mp htarget
    refine follows_opened (.included h.reached h.stands (Option.isSome_of_eq_some hgranted) hfetch
      (marks_of_mem_places hplace)) ?_
    rw [List.map_append, ← h.source]
    rfl
  · rcases requested_eq_error he with
      ⟨hunknown, rfl⟩ | ⟨writable, cause, hgranted, hfetch, rfl⟩ |
        ⟨writable, target, targetText, hgranted, hfetch, rfl⟩
    · exact h.raisedAt hplace rfl (.unknownCommand h.stands hunknown)
    · exact h.raisedAt hplace rfl
        (.fileAccess h.stands (Option.isSome_of_eq_some hgranted) hfetch)
    · exact h.raisedAt hplace rfl
        (.cyclicInclude h.stands (Option.isSome_of_eq_some hgranted) hfetch)

/-- A command takes over what the included document has recorded, or fails at its place. -/
theorem absorb
    (h : Follows fs mode top topText text frames
      ⟨d, ⟨offset, .command name argument⟩ :: items, fault⟩)
    (hgranted : (grantsWriting? name).isSome) (hincluded : Recording fs mode top topText included) :
    Except.Yields (RaisedAt fs mode top topText)
      (fun d' => Follows fs mode top topText text frames ⟨d', items, fault⟩)
      (d.absorb (d.origin frames offset) writable included) := by
  refine Except.yields_iff.mpr ⟨fun d' hd' => ?_, fun e he => ?_⟩
  · have hopen := Draft.isOpen_of_absorb hd'
    obtain ⟨root, hroot, rfl⟩ := Draft.absorb_eq_ok_iff.mp hd'
    refine h.advance hopen
      (Section.eachEntry_of_updatesAt (fun s s' hs hmerged => ?_) h.recording hroot)
    -- the permission that is granted to the included tree is not part of any history
    exact Section.eachEntry_of_merge (fun hold hnew => hold.append hnew) hs
      (Section.eachEntry_setWritableDeep writable (fun hattrs => hattrs) hincluded) hmerged
  · obtain ⟨cause, rfl⟩ := Draft.absorb_eq_error h.isOpen he
    exact h.raisedAt h.stands.mem_places rfl (.refusedMerge h.stands hgranted)

/-- A document ends with a tree that has recorded places only, or at a place that is no item. -/
theorem ended (h : Follows fs mode top topText text frames ⟨d, [], fault⟩) :
    Except.Yields (RaisedAt fs mode top topText) (Recording fs mode top topText)
      (ended frames fault d) := by
  refine Except.yields_iff.mpr ⟨fun root hroot => ?_, fun e he => ?_⟩
  · rw [eq_root_of_ended hroot]
    exact h.recording
  · obtain ⟨offset, hfault, rfl⟩ := ended_eq_error he
    have hstops : (readText mode text).fault = some offset := h.fault.symm.trans hfault
    have hplace : offset ∈ (readText mode text).places :=
      List.mem_append_right _ (by rw [hstops]; exact List.mem_singleton_self offset)
    exact h.raisedAt hplace rfl (.malformed hstops)

end Follows

/-- At every moment a document is followed from the outermost one on. -/
theorem follows_readerInvariant (fs : FileSystem) (mode : Mode) (top topText : String) :
    ReaderInvariant fs mode (fun frames r => ∃ text, Follows fs mode top topText text frames r)
      (Recording fs mode top topText) (RaisedAt fs mode top topText) where
  header := fun ⟨text, h⟩ => h.applyHeader.imp_ok fun _ hd' => ⟨text, hd'⟩
  assign := fun ⟨text, h⟩ => h.applyAssign.imp_ok fun _ hd' => ⟨text, hd'⟩
  opened := fun ⟨_, h⟩ => h.requested.imp_ok fun target htarget => ⟨target.2.2, htarget⟩
  absorbed := fun ⟨text, h⟩ hgranted hincluded =>
    (h.absorb hgranted hincluded).imp_ok fun _ hd' => ⟨text, hd'⟩
  ended := fun ⟨_, h⟩ => h.ended

/-! ## Results -/

/-- Evaluation and the removal of temporary keys leave the histories of the keys that stay. -/
theorem Recording.finish {built root : Section} (hbuilt : Recording fs mode top topText built)
    (h : Session.finish built = .ok root) : Records fs mode top topText root := by
  obtain ⟨evaluated, heval, rfl⟩ := finish_eq_ok_iff.mp h
  have hkeys := Section.evaluateAll_keysDistinct heval (hbuilt.imp fun _ hs => hs.keysDistinct)
  intro p k e' he'
  obtain ⟨-, e, he, rfl⟩ := Section.entryAt?_dropTemporaryDeep hkeys he'
  have hentry := Section.evaluateAll_entryAt? heval (p ++ [k])
  rw [he] at hentry
  -- what the result has at this key, the tree had before, with the same history
  generalize hold : built.entryAt? (p ++ [k]) = old at hentry
  cases hentry with
  | some hevaluates =>
    rw [Section.withoutTemporary, hevaluates.1]
    exact Section.EachEntry.entryAt? hbuilt hold

/-- The histories of a parsed text are made of traces, and if it fails, the error is raised at the
end of one. -/
theorem traced_parseText (fs : FileSystem) (mode : Mode) (path text : String) :
    Except.Yields (RaisedAt fs mode path text) (Records fs mode path text)
      (LayeredConfig.parseText fs mode text path) := by
  have hopened : ∃ text', Follows fs mode path text text' [] (.opened mode path text) :=
    ⟨text, follows_opened .outermost rfl⟩
  have hparse := (follows_readerInvariant fs mode path text).parseDocument hopened
  rw [parseText_eq]
  cases hdocument : outcome (parseDocument fs (fs.contents.size + 1) path text) { mode } with
  | error e =>
    rw [hdocument] at hparse
    exact hparse
  | ok built =>
    rw [hdocument] at hparse
    refine Except.yields_iff.mpr ⟨fun root hroot => hparse.finish hroot, fun e he => Or.inl ?_⟩
    obtain ⟨r, -, rfl⟩ := finish_eq_error_iff.mp he
    exact ⟨r, rfl⟩

/-- Whatever documents include one another, every key of a result has a history, and what is in it
are the places of items that define the key; and an error that is raised over an item has the place
of this item, or the place at which the items end. A place is told by the chain of the commands that
have led to its document from the outermost one. -/
theorem back_traces_follow_includes (fs : FileSystem) (mode : Mode) (path text : String) :
    Except.Yields (RaisedAt fs mode path text) (Records fs mode path text)
      (LayeredConfig.parseText fs mode text path) ∧
    ∀ file, fs.fetch file = .ok (path, text) →
      Except.Yields (RaisedAt fs mode path text) (Records fs mode path text)
        (LayeredConfig.parseFile fs mode file) := by
  refine ⟨traced_parseText fs mode path text, fun file hfetch => ?_⟩
  rw [parseFile_of_fetch hfetch]
  exact traced_parseText fs mode path text

/-- A file system with a document that inherits another one and overwrites a key of it, and with one
that includes a document with an error. -/
def tracing : FileSystem :=
  { canonicalize := .ok
    contents := ⟨[
      ("/main", .ok "[s]\n@inherit(part)\nk = 2\n"),
      ("/part", .ok "k = 1\n"),
      ("/outer", .ok "a = 1\n@include(deep)\n"),
      ("/deep", .ok "[[b]]\n")]⟩ }

/-- The error that the outer document of the second pair gives. -/
def tooDeep : ParseError :=
  .malformed .headerTooDeep
    { trail := [
        .inSource "/outer" "a = 1\n@include(deep)\n" 6,
        .inSource "/deep" "[[b]]\n" 0] }

/-- A key that is inherited and then overwritten, and a header that is too deep in an included
file. -/
theorem back_traces_follow_includes_tracing :
    ∃ root,
      LayeredConfig.parseFile tracing .config "/main" = .ok root ∧
      (root.lookupAttrs? ["s", "k"]).map (fun attrs => attrs.history.origins.map fun origin =>
        origin.trail.map fun pos => (pos.file, pos.line?)) =
          some [[("/main", some 2), ("/part", some 1)], [("/main", some 3)]] ∧
      Records tracing .config "/main" "[s]\n@inherit(part)\nk = 2\n" root ∧
      LayeredConfig.parseFile tracing .config "/outer" = .error tooDeep ∧
      RaisedAt tracing .config "/outer" "a = 1\n@include(deep)\n" tooDeep := by
  obtain ⟨root, hroot, horigins⟩ := Except.exists_of_any_toOption
    (LayeredConfig.parseFile tracing .config "/main")
    (fun root => (root.lookupAttrs? ["s", "k"]).map (fun attrs =>
      attrs.history.origins.map fun origin =>
        origin.trail.map fun pos => (pos.file, pos.line?)) ==
          some [[("/main", some 2), ("/part", some 1)], [("/main", some 3)]])
    (by decide +kernel)
  have herror : LayeredConfig.parseFile tracing .config "/outer" = .error tooDeep := by
    decide +kernel
  have hmain := (back_traces_follow_includes tracing .config "/main"
    "[s]\n@inherit(part)\nk = 2\n").2 "/main" rfl
  have houter := (back_traces_follow_includes tracing .config "/outer"
    "a = 1\n@include(deep)\n").2 "/outer" rfl
  rw [hroot] at hmain
  rw [herror] at houter
  exact ⟨root, hroot, beq_iff_eq.mp horigins, hmain, herror, houter⟩

end Session

end LayeredConfig
