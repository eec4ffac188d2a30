import LayeredConfig.Proofs.Session.Machine

/-!
# What holds at every moment of a parse

A property of a document that is being read, under the documents that wait for it, holds at every
moment of a parse if it holds when a document is opened and each item keeps it. The property may
speak of the items that are left, and of the frames, which `DocumentInvariant` says nothing about;
and besides the trees that documents give it settles which failures there are. `ReaderInvariant`
packs these conditions, one for each kind of step.

A document that waits has the property as it was when it came to the command for which it waits.
From there it goes on when the included document is finished.
-/

namespace LayeredConfig.Session

variable {fs : FileSystem} {mode : Mode} {R : List Frame → Reader → Prop} {T : Section → Prop}
  {F : ParseError → Prop} {waiting : List Waiting} {r : Reader} {d : Draft}
  {items : List PlacedItem} {fault : Option Nat} {m : Moment} {path text : String}

/-- A document that waits, as it was when it came to the command for which it waits. -/
def Waiting.before (w : Waiting) (name argument : String) : Reader :=
  { w.reader with items := ⟨w.offset, .command name argument⟩ :: w.reader.items }

/-- What it takes for a property `R` of documents that are read to hold at every moment, with `T` of
the trees that they give and `F` of the failures. -/
structure ReaderInvariant (fs : FileSystem) (mode : Mode) (R : List Frame → Reader → Prop)
    (T : Section → Prop) (F : ParseError → Prop) : Prop where
  header : ∀ {frames d offset opening closing name items fault},
    R frames ⟨d, ⟨offset, .header opening closing name⟩ :: items, fault⟩ →
    Except.Yields F (fun d' => R frames ⟨d', items, fault⟩)
      (d.applyHeader frames offset opening closing name)
  assign : ∀ {frames d offset marker key op raw items fault},
    R frames ⟨d, ⟨offset, .assign marker key op raw⟩ :: items, fault⟩ →
    Except.Yields F (fun d' => R frames ⟨d', items, fault⟩)
      (d.applyAssign frames offset marker key op raw)
  /-- A command opens another document, under one frame more. -/
  opened : ∀ {frames d offset name argument items fault},
    R frames ⟨d, ⟨offset, .command name argument⟩ :: items, fault⟩ →
    Except.Yields F
      (fun target => R (frames ++ [⟨d.path, d.position offset⟩])
        (.opened mode target.2.1 target.2.2))
      (requested fs d frames offset name argument)
  /-- A command ends with the tree of that document. -/
  absorbed : ∀ {frames d offset name argument items fault writable included},
    R frames ⟨d, ⟨offset, .command name argument⟩ :: items, fault⟩ →
    (grantsWriting? name).isSome → T included →
    Except.Yields F (fun d' => R frames ⟨d', items, fault⟩)
      (d.absorb (d.origin frames offset) writable included)
  ended : ∀ {frames d fault}, R frames ⟨d, [], fault⟩ → Except.Yields F T (ended frames fault d)

/-- The document that is read has the property, and those that wait had it when they came to their
commands. -/
inductive Throughout (R : List Frame → Reader → Prop) : List Waiting → Reader → Prop
  | outermost {r : Reader} (here : R [] r) : Throughout R [] r
  | included {w : Waiting} {waiting : List Waiting} {r : Reader} (name argument : String)
      (outer : Throughout R waiting (w.before name argument))
      (granted : (grantsWriting? name).isSome) (here : R (framesOf (w :: waiting)) r) :
      Throughout R (w :: waiting) r

/-- What `R`, `T` and `F` say of a moment. -/
def Moment.Holds (R : List Frame → Reader → Prop) (T : Section → Prop) (F : ParseError → Prop) :
    Moment → Prop
  | reading waiting r => Throughout R waiting r
  | done result => Except.Yields F T result

namespace Throughout

/-- What holds throughout holds of the document that is being read. -/
theorem here (h : Throughout R waiting r) : R (framesOf waiting) r := by
  cases h with
  | outermost here => exact here
  | included _ _ _ _ here => exact here

/-- The documents that wait do not mind what becomes of the one that is read. -/
theorem replace {r' : Reader} (h : Throughout R waiting r) (here : R (framesOf waiting) r') :
    Throughout R waiting r' := by
  cases h with
  | outermost _ => exact .outermost here
  | included name argument outer granted _ => exact .included name argument outer granted here

end Throughout

/-- The step of an item leads to a moment with the property if the new draft has it, or if its
failure is allowed. -/
theorem holds_proceed {x : Except ParseError Draft} (h : Throughout R waiting r)
    (hx : Except.Yields F (fun d' => R (framesOf waiting) ⟨d', items, fault⟩) x) :
    (Moment.proceed waiting items fault x).Holds R T F := by
  cases x with
  | error e => exact hx
  | ok d' => exact h.replace hx

/-- A finished document, or its failure, is handed to the document that waits for it, which goes on
from its command. -/
theorem holds_resume (hI : ReaderInvariant fs mode R T F) (h : Throughout R waiting r)
    {tree : Except ParseError Section} (htree : Except.Yields F T tree) :
    (Moment.resume waiting tree).Holds R T F := by
  cases tree with
  | error e => exact htree
  | ok root =>
    cases h with
    | outermost _ => exact htree
    | included name argument outer granted _ =>
      exact holds_proceed outer (hI.absorbed outer.here granted htree)

/-- One step of the machine keeps the property of the moment. -/
theorem holds_step (hI : ReaderInvariant fs mode R T F) (h : m.Holds R T F) :
    (m.step fs mode).Holds R T F := by
  cases m with
  | done result => exact h
  | reading waiting r =>
    obtain ⟨d, items, fault⟩ := r
    replace h : Throughout R waiting ⟨d, items, fault⟩ := h
    cases items with
    -- No items are left: the document ends, and the one that waits for it goes on.
    | nil => exact holds_resume hI h (hI.ended h.here)
    | cons placed items =>
      obtain ⟨offset, item⟩ := placed
      cases item with
      | header opening closing name => exact holds_proceed h (hI.header h.here)
      | assign marker key op raw => exact holds_proceed h (hI.assign h.here)
      | command name argument =>
        -- A command is refused, or opens a document under one frame more.
        have hopened := hI.opened h.here
        rw [Moment.step]
        split
        · rename_i e hrequested
          rw [hrequested] at hopened
          exact hopened
        · rename_i writable path text hrequested
          rw [hrequested] at hopened
          have hgranted := (requested_eq_ok_iff.mp hrequested).1
          refine .included name argument h (Option.isSome_of_eq_some hgranted) ?_
          rw [framesOf_cons]
          exact hopened

/-- Any number of steps keep the property. -/
theorem holds_iterate (hI : ReaderInvariant fs mode R T F) (h : m.Holds R T F) (n : Nat) :
    ((Moment.step fs mode)^[n] m).Holds R T F := by
  induction n generalizing m with
  | zero => exact h
  | succ n ih => exact ih (holds_step hI h)

/-- What holds at every moment holds of the tree that a parse builds, and of its failure. -/
theorem ReaderInvariant.parseDocument (hI : ReaderInvariant fs mode R T F)
    (h : R [] (.opened mode path text)) :
    Except.Yields F T (outcome (parseDocument fs (fs.contents.size + 1) path text) { mode }) := by
  have hparses : ParsesAt fs mode (fs.contents.size + 1) 0 := parsesAt fs mode (by omega)
  obtain ⟨n, hn⟩ := hparses [] path text rfl .singleton
  have hholds := holds_iterate hI (m := .reading [] (.opened mode path text)) (.outermost h) n
  rwa [hn, resume_nil] at hholds

end LayeredConfig.Session
