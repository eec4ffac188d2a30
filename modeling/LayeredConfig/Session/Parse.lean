import LayeredConfig.Document.Read
import LayeredConfig.FileSystem.Path
import LayeredConfig.Session.Draft

/-!
# Parse sessions

A session parses one document after another, together with the documents that they include. While
an include is being followed, the document that contains it waits as a frame of the session. The
frames are what cyclic includes are recognized by and what back traces are made of.

Reading a document only ever goes deeper into files that are not being read already, so the number
of files bounds the depth.
-/

namespace LayeredConfig

/-- The state of a session: how names are read, and the documents that wait, outermost first. -/
structure Session where
  mode : Mode := .config
  frames : List Frame := []
deriving DecidableEq, Repr

/-- A part of a parse. Failing leaves the state of the session as it is at that point. -/
abbrev SessionM := ExceptT ParseError (StateM Session)

namespace Session

/-- Runs a part of a parse with one more document waiting, and takes that off again however the
part ends. -/
def following (frame : Frame) (part : SessionM α) : SessionM α :=
  ExceptT.mk fun s =>
    let r := part.run { s with frames := s.frames ++ [frame] }
    (r.1, { r.2 with frames := r.2.frames.dropLast })

/-- Whether a command with the given name makes the keys that it brings in writable. Other
commands are unknown. -/
def grantsWriting? : (command : String) → Option Bool
  | "include" => some false
  | "inherit" => some true
  | _ => none

/-- Applies a command: parses the file that it names by `parse` and merges it in. -/
def applyCommand (fs : FileSystem) (parse : (path text : String) → SessionM Section) (d : Draft)
    (offset : Nat) (name argument : String) : SessionM Draft := do
  let frames := (← get).frames
  let origin := d.origin frames offset
  let some writable := grantsWriting? name
    | throw (.malformed (.unknownCommand name) origin)
  let target := Path.join (Path.parent d.path) argument
  match fs.fetch target with
  | .error e => throw (.fileAccess target e origin)
  | .ok (path, text) =>
    if (d.path :: frames.map (·.path)).any (Path.same path) then
      throw (.cyclicInclude path origin)
    let included ← following { path := d.path, position := d.position offset } (parse path text)
    liftExcept (d.absorb origin writable included)

/-- Applies one item. -/
def applyItem (fs : FileSystem) (parse : (path text : String) → SessionM Section) (d : Draft)
    (placed : PlacedItem) : SessionM Draft := do
  let frames := (← get).frames
  match placed.item with
  | .header opening closing name =>
    liftExcept (d.applyHeader frames placed.offset opening closing name)
  | .command name argument => applyCommand fs parse d placed.offset name argument
  | .assign marker key op value =>
    liftExcept (d.applyAssign frames placed.offset marker key op value)

/-- Parses a document and what it includes, at most `depth` files deep. -/
def parseDocument (fs : FileSystem) : (depth : Nat) → (path text : String) → SessionM Section
  | 0, path, _ => do throw (.cyclicInclude path { trail := (← get).frames.map (·.position) })
  | depth + 1, path, text => do
    let source := String.ofList (Text.normalizeNewlines text.toList)
    let reading := Document.read (← get).mode source
    let d ← reading.items.foldlM (applyItem fs (parseDocument fs depth)) { path, source }
    match reading.fault with
    | none => pure d.root
    | some offset => throw (.malformed .malformed (d.origin (← get).frames offset))

/-- Completes a tree: references are evaluated first, since they may use temporary keys, which are
then dropped. -/
def finish (root : Section) : Except ParseError Section :=
  (root.evaluateAll.mapError .reference).map Section.dropTemporaryDeep

/-- Parses the text of a document. Its path need not exist; includes are looked up next to it. -/
def parseText (fs : FileSystem) (text path : String) : SessionM Section := do
  modify fun s => { s with frames := [] }
  let root ← parseDocument fs (fs.contents.size + 1) path text
  liftExcept (finish root)

/-- Parses the document that a path leads to. -/
def parseFile (fs : FileSystem) (path : String) : SessionM Section := do
  modify fun s => { s with frames := [] }
  match fs.fetch path with
  | .error e => throw (.fileAccess path e (.ofFile path))
  | .ok (canonical, text) => parseText fs text canonical

end Session

/-- Parses a document in a session of its own. -/
def parseFile (fs : FileSystem) (mode : Mode) (path : String) : Except ParseError Section :=
  ((Session.parseFile fs path).run { mode }).1

/-- Parses the text of a document in a session of its own. -/
def parseText (fs : FileSystem) (mode : Mode) (text path : String) : Except ParseError Section :=
  ((Session.parseText fs text path).run { mode }).1

end LayeredConfig
