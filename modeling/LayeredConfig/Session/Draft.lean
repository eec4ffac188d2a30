import LayeredConfig.Document.Item
import LayeredConfig.Section.Merge
import LayeredConfig.Section.Write
import LayeredConfig.Session.Error
import LayeredConfig.Template.Parse

/-!
# Applying items to a tree

A draft is a document as far as its items have been applied: the tree that they have built, and
the section that is open. Headers open a section and assignments write into it; this module says
what each of them does. What happens on the way to another file is the session's business.
-/

namespace LayeredConfig

/-- A document that waits for one that it includes, and the place of the command in it. -/
structure Frame where
  path : String
  position : SourcePos
deriving DecidableEq, Repr

/-- A document as far as it has been applied. -/
structure Draft where
  path : String
  source : String
  root : Section := .root
  /-- The names of the open sections, outermost first. -/
  sections : List String := []
deriving DecidableEq

namespace Draft

/-- The position of a byte of the document. -/
def position (d : Draft) (offset : Nat) : SourcePos :=
  .inSource d.path d.source offset

/-- The back trace of a byte of the document, under the documents that wait for it. -/
def origin (d : Draft) (frames : List Frame) (offset : Nat) : Origin :=
  { trail := frames.map (·.position) ++ [d.position offset]
    sections := { segments := d.sections } }

/-- Changes the open section. -/
def updateOpen (d : Draft) (origin : Origin) (f : Section → Except ParseError Section) :
    Except ParseError Draft :=
  match d.root.updateAt d.sections f with
  | none => .error (.malformed .sectionLost origin)
  | some result => result.map fun root => { d with root }

/-- A change of the open section that protection may refuse. -/
def writeOpen (d : Draft) (origin : Origin) (f : Section → Except SectionError Section) :
    Except ParseError Draft :=
  d.updateOpen origin fun s => (f s).mapError (.writeProtection · origin)

/-! ## Headers -/

/-- Makes sure that a section has a nested section of the given name. A section that is there
already is entered again, which final ones refuse; it is then protected. -/
def enter (parent : Section) (name : String) (origin : Origin) : Except SectionError Section :=
  match parent.entries.get? name with
  | some ⟨.subsection _, attrs⟩ =>
    if attrs.flags.final then .error (.sectionNotWritable name)
    else
      .ok (parent.modifyAttrs name fun a =>
        { flags := { a.flags with writable := false }, history := a.history.push origin })
  | _ => parent.setAt name (.subsection (.named name)) origin

/-- Applies a section header. A header of depth `n` closes all sections but the `n - 1` outermost
ones, and opens its own below them. -/
def applyHeader (d : Draft) (frames : List Frame) (offset opening closing : Nat) (name : String) :
    Except ParseError Draft :=
  if opening ≠ closing then .error (.malformed .unbalancedHeader (d.origin frames offset))
  else if opening > d.sections.length + 1 then
    .error (.malformed .headerTooDeep (d.origin frames offset))
  else
    let d := { d with sections := d.sections.take (opening - 1) }
    let origin := d.origin frames offset
    (d.writeOpen origin fun parent => enter parent name origin).map fun d =>
      { d with sections := d.sections ++ [name] }

/-! ## Assignments -/

/-- The flags that a mark gives to its key. -/
def markedFlags : Option Marker → Flags
  | none => {}
  | some .mandatory => { mandatory := true }
  | some .final => { final := true }
  | some .temporary => { temporary := true }

/-- What an assignment stores: the value as it is, or its evaluation. When evaluation fails and
the key has no definition yet, the assignment counts as one. -/
def storedValue (d : Draft) (origin : Origin) (key : String) (op : AssignOp) (value : Scalar) :
    Except ParseError Scalar :=
  match op, value with
  | .immediate, .template t =>
    (d.root.evaluateImmediate (d.sections ++ [key]) t).mapError fun e =>
      .reference (if e.history.isEmpty then { e with history := .ofOrigin origin } else e)
  | _, value => .ok value

/-- Applies an assignment to the open section. -/
def applyAssign (d : Draft) (frames : List Frame) (offset : Nat) (marker : Option Marker)
    (key : String) (op : AssignOp) (raw : String) : Except ParseError Draft := do
  let origin := d.origin frames offset
  let value ← (Template.parse raw).mapError fun e => .malformed (.badReference e) origin
  let stored ← d.storedValue origin key op value
  d.writeOpen origin fun s =>
    (s.setAt key (.scalar stored) origin).map (·.modifyFlags key fun _ => markedFlags marker)

/-! ## Included documents -/

/-- Merges the tree of an included document into the open section. An inherited tree may be
overwritten afterwards, an included one may not. -/
def absorb (d : Draft) (origin : Origin) (writable : Bool) (included : Section) :
    Except ParseError Draft :=
  d.writeOpen origin fun s => s.merge (included.setWritableDeep writable)

end Draft

end LayeredConfig
