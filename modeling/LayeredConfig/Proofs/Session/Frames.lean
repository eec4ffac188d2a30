import LayeredConfig.Proofs.Session.Step

/-!
# Frames are restored

Following an include adds a frame to the session and takes it off again, also when the included
document fails. So every part of a parse leaves the session as it found it (`Balanced`), and is
nothing more than its outcome: a chain of balanced parts may be read as a chain of computations that
may fail. `outcome_applyItem_command` and `outcome_parseDocument_succ` are the two equations in
which the includes are.
-/

namespace LayeredConfig.Session

variable {fs : FileSystem} {parse : (path text : String) → SessionM Section} {s : Session}
  {d : Draft} {placed : PlacedItem} {α β : Type}

/-! ## Balanced parts -/

/-- Whether it succeeds or fails, the part leaves the session as it found it. -/
def Balanced (m : SessionM α) : Prop :=
  ∀ s, (m.run s).2 = s

namespace Balanced

/-- A result that needs no session leaves the session alone. -/
theorem liftExcept (x : Except ParseError α) : Balanced (liftExcept x) := fun s => by
  rw [run_liftExcept]

/-- Two balanced parts one after the other are balanced, also when the first one fails. -/
theorem bind {m : SessionM α} {f : α → SessionM β} (hm : Balanced m)
    (hf : ∀ a, Balanced (f a)) : Balanced (m >>= f) := fun s => by
  have hstate := hm s
  rw [run_bind]
  generalize m.run s = result at hstate
  obtain ⟨r, s'⟩ := result
  obtain rfl : s' = s := hstate
  cases r with
  | error e => rfl
  | ok a => exact hf a s'

/-- A balanced step may be taken for every item of a list. -/
theorem foldlM {f : α → β → SessionM α} (hf : ∀ a b, Balanced (f a b)) (items : List β) (a : α) :
    Balanced (items.foldlM f a) := by
  induction items generalizing a with
  | nil => exact fun s => rfl
  | cons b items ih => exact (hf a b).bind ih

/-- The frame that is added at the end is the one that is taken off. -/
theorem following {part : SessionM α} (h : Balanced part) (frame : Frame) :
    Balanced (following frame part) := fun s => by
  have hstate := h { s with frames := s.frames ++ [frame] }
  change { (part.run { s with frames := s.frames ++ [frame] }).2 with
    frames := (part.run { s with frames := s.frames ++ [frame] }).2.frames.dropLast } = s
  rw [hstate, List.dropLast_concat]

end Balanced

/-- After a balanced part the next one starts with the same session. -/
theorem outcome_bind {m : SessionM α} (hm : Balanced m) (f : α → SessionM β) (s : Session) :
    outcome (m >>= f) s = outcome m s >>= fun a => outcome (f a) s := by
  have hstate := hm s
  unfold outcome
  rw [run_bind]
  generalize m.run s = result at hstate
  obtain ⟨r, s'⟩ := result
  obtain rfl : s' = s := hstate
  cases r <;> rfl

/-- Steps that are balanced may be taken one after the other without a session. -/
theorem outcome_foldlM {f : α → β → SessionM α} (hf : ∀ a b, Balanced (f a b)) (items : List β)
    (a : α) (s : Session) :
    outcome (items.foldlM f a) s = items.foldlM (fun a b => outcome (f a b) s) a := by
  induction items generalizing a with
  | nil => rfl
  | cons b items ih =>
    rw [List.foldlM_cons, List.foldlM_cons, outcome_bind (hf a b)]
    exact congrArg _ (funext ih)

/-! ## Items and documents -/

/-- An item is balanced if the documents that commands include are read so. -/
theorem balanced_applyItem (fs : FileSystem)
    (hparse : ∀ path text, Balanced (parse path text)) (d : Draft)
    (placed : PlacedItem) : Balanced (applyItem fs parse d placed) := by
  obtain ⟨offset, item⟩ := placed
  intro s
  cases item with
  | header opening closing name => rw [run_applyItem_header]
  | assign marker key op raw => rw [run_applyItem_assign]
  | command name argument =>
    rw [run_applyItem_command]
    cases requested fs d s.frames offset name argument with
    | error e => rfl
    | ok request =>
      obtain ⟨writable, path, text⟩ := request
      -- the frame that is added here is taken off by `following`, however the included document
      -- ends
      exact ((hparse path text).following _).bind (fun _ => .liftExcept _) s

/-- A command parses the document that it asks for, with one frame more, and absorbs its tree. -/
theorem outcome_applyItem_command (hparse : ∀ path text, Balanced (parse path text)) (d : Draft)
    (offset : Nat) (name argument : String) (s : Session) :
    outcome (applyItem fs parse d ⟨offset, .command name argument⟩) s =
      requested fs d s.frames offset name argument >>= fun (writable, path, text) =>
        outcome (parse path text)
            { s with frames := s.frames ++ [⟨d.path, d.position offset⟩] } >>= fun included =>
          d.absorb (d.origin s.frames offset) writable included := by
  rw [outcome, run_applyItem_command]
  cases requested fs d s.frames offset name argument with
  | error e => rfl
  | ok request =>
    obtain ⟨writable, path, text⟩ := request
    refine (outcome_bind ((hparse path text).following _) _ s).trans ?_
    refine congrArg _ (funext fun included => ?_)
    rw [outcome, run_liftExcept]

/-- The end of a document: its tree, unless it goes on with something that is no item. -/
def ended (frames : List Frame) (fault : Option Nat) (d : Draft) : Except ParseError Section :=
  match fault with
  | none => .ok d.root
  | some offset => .error (.malformed .malformed (d.origin frames offset))

/-- Reading a document: its items are applied one after the other, up to its end. -/
def readThrough (mode : Mode) (frames : List Frame)
    (apply : Draft → PlacedItem → Except ParseError Draft) (path text : String) :
    Except ParseError Section :=
  let source := String.ofList (Text.normalizeNewlines text.toList)
  let reading := Document.read mode source
  reading.items.foldlM apply { path, source } >>= ended frames reading.fault

/-- The text of a document as it is read. -/
def sourceOf (text : String) : String :=
  String.ofList (Text.normalizeNewlines text.toList)

/-- The items of a document, and where it goes on with something else. -/
def readText (mode : Mode) (text : String) : Document.Reading :=
  Document.read mode (sourceOf text)

/-- Reading through a text applies its items in order and then looks at where reading stopped. -/
theorem readThrough_eq (mode : Mode) (frames : List Frame)
    (apply : Draft → PlacedItem → Except ParseError Draft) (path text : String) :
    readThrough mode frames apply path text =
      (readText mode text).items.foldlM apply { path, source := sourceOf text } >>=
        ended frames (readText mode text).fault :=
  rfl

/-- Every document is read in balance, by induction on how deep it may include others. -/
theorem balanced_parseDocument (fs : FileSystem) (depth : Nat) (path text : String) :
    Balanced (parseDocument fs depth path text) := by
  induction depth generalizing path text with
  | zero => exact fun s => rfl
  | succ depth ih =>
    refine Balanced.bind (fun s => rfl) fun session => ?_
    refine Balanced.bind (.foldlM (balanced_applyItem fs ih) _ _) fun d => ?_
    split
    · exact fun s => rfl
    · exact fun s => rfl

/-- A document is read through, with each item applied one level higher. -/
theorem outcome_parseDocument_succ (fs : FileSystem) (depth : Nat) (path text : String)
    (s : Session) :
    outcome (parseDocument fs (depth + 1) path text) s =
      readThrough s.mode s.frames
        (fun d placed => outcome (applyItem fs (parseDocument fs depth) d placed) s) path text := by
  have hitem := balanced_applyItem fs (balanced_parseDocument fs depth)
  rw [outcome, parseDocument, run_get_bind]
  refine (outcome_bind (.foldlM hitem _ _) _ s).trans ?_
  rw [outcome_foldlM hitem, readThrough]
  refine congrArg _ (funext fun d => ?_)
  generalize (Document.read s.mode _).fault = fault
  cases fault <;> rfl

/-- A parse reads its document while no other waits, and completes the tree. -/
theorem parseText_eq (fs : FileSystem) (mode : Mode) (path text : String) :
    LayeredConfig.parseText fs mode text path =
      outcome (parseDocument fs (fs.contents.size + 1) path text) { mode } >>= finish := by
  change outcome (parseDocument fs (fs.contents.size + 1) path text >>= fun root =>
    liftExcept (finish root)) { mode } = _
  rw [outcome_bind (balanced_parseDocument fs _ path text)]
  refine congrArg _ (funext fun root => ?_)
  rw [outcome, run_liftExcept]

end LayeredConfig.Session
