import LayeredConfig.Proofs.Session.Frames
import Mathlib.Data.List.Perm.Subperm
import Mathlib.Logic.Function.Iterate

/-!
# Parsing with an explicit stack

The recursion of `parseDocument` is bounded by a depth. Here the same parse is a machine without a
bound: it reads one document, the documents that wait for it lie on a stack, and one step applies
one item, goes into an included document, or goes back to the document that waits for it.

A document is gone into only if neither the document that is read nor one that waits for it has its
path. So the paths are distinct at every moment (`Distinct.step`), all but the outermost belong to
files, and there are never more of them than files and one (`Distinct.length_le`). This is what
makes the bound of the recursion harmless: `parsesAt` takes a whole document in the machine, by
induction on a depth that the files of the file system do not exhaust.
-/

namespace LayeredConfig

/-- The paths of the files that can be read. -/
def FileSystem.files (fs : FileSystem) : List String :=
  fs.contents.keys.filter fun path => (fs.read path).toBool

namespace Session

/-- A document that is being read: what its items have built so far, the items that are left, and
the place where it goes on with something else. -/
structure Reader where
  draft : Draft
  items : List PlacedItem
  fault : Option Nat

/-- The start of a document. -/
def Reader.opened (mode : Mode) (path text : String) : Reader :=
  let source := String.ofList (Text.normalizeNewlines text.toList)
  let reading := Document.read mode source
  { draft := { path, source }, items := reading.items, fault := reading.fault }

/-- A document that waits for one that it includes: the command stood at `offset`, and `reader` goes
on behind it. -/
structure Waiting where
  reader : Reader
  offset : Nat
  writable : Bool

/-- The frame of the session for a document that waits. -/
def Waiting.frame (w : Waiting) : Frame :=
  ⟨w.reader.draft.path, w.reader.draft.position w.offset⟩

/-- The frames of the session. They begin with the outermost document, the stack with the innermost
one. -/
def framesOf (waiting : List Waiting) : List Frame :=
  (waiting.map Waiting.frame).reverse

/-- The path of the document that is read, and the paths of the documents that wait for it. -/
def pathsOf (path : String) (waiting : List Waiting) : List String :=
  path :: waiting.map (·.reader.draft.path)

/-- A moment of a parse. -/
inductive Moment
  | reading (waiting : List Waiting) (reader : Reader)
  | done (result : Except ParseError Section)

namespace Moment

/-- The paths of the documents that are being read, innermost first. -/
def paths : Moment → List String
  | reading waiting reader => pathsOf reader.draft.path waiting
  | done _ => []

/-- Goes on with the items that are left once one has been applied. -/
def proceed (waiting : List Waiting) (items : List PlacedItem) (fault : Option Nat) :
    Except ParseError Draft → Moment
  | .error e => done (.error e)
  | .ok draft => reading waiting { draft, items, fault }

/-- Goes back to the innermost document that waits, with the tree of the one that it includes. -/
def resume : List Waiting → Except ParseError Section → Moment
  | _, .error e => done (.error e)
  | [], .ok root => done (.ok root)
  | w :: waiting, .ok root =>
    let d := w.reader.draft
    proceed waiting w.reader.items w.reader.fault
      (d.absorb (d.origin (framesOf waiting) w.offset) w.writable root)

/-- One step of a parse. -/
def step (fs : FileSystem) (mode : Mode) : Moment → Moment
  | done result => done result
  | reading waiting ⟨d, [], fault⟩ => resume waiting (ended (framesOf waiting) fault d)
  | reading waiting ⟨d, ⟨offset, item⟩ :: items, fault⟩ =>
    match item with
    | .header opening closing name =>
      proceed waiting items fault (d.applyHeader (framesOf waiting) offset opening closing name)
    | .assign marker key op raw =>
      proceed waiting items fault (d.applyAssign (framesOf waiting) offset marker key op raw)
    | .command name argument =>
      match requested fs d (framesOf waiting) offset name argument with
      | .error e => done (.error e)
      | .ok (writable, path, text) =>
        reading (⟨⟨d, items, fault⟩, offset, writable⟩ :: waiting) (.opened mode path text)

end Moment

variable {fs : FileSystem} {mode : Mode} {d d' : Draft} {waiting : List Waiting} {w : Waiting}
  {items : List PlacedItem} {placed : PlacedItem} {fault : Option Nat} {offset depth : Nat}
  {m m' m'' : Moment} {name argument path text target : String} {paths : List String}
  {writable : Bool} {x : Except ParseError Draft} {tree : Except ParseError Section}

/-- The document that waits longest is the outermost one. -/
theorem framesOf_cons : framesOf (w :: waiting) = framesOf waiting ++ [w.frame] := by
  rw [framesOf, List.map_cons, List.reverse_cons, framesOf]

/-- The frames show the paths of the documents that wait. -/
theorem mem_map_path_framesOf :
    path ∈ (framesOf waiting).map (·.path) ↔ path ∈ waiting.map (·.reader.draft.path) := by
  rw [framesOf, List.map_reverse, List.mem_reverse, List.map_map]
  rfl

/-- A finished document is absorbed by the one on top of the stack, which then goes on with its next
item. -/
theorem resume_cons (w : Waiting) (waiting : List Waiting) (tree : Except ParseError Section) :
    Moment.resume (w :: waiting) tree = .proceed waiting w.reader.items w.reader.fault
      (tree >>= w.reader.draft.absorb (w.reader.draft.origin (framesOf waiting) w.offset)
        w.writable) := by
  cases tree <;> rfl

/-- Without a document that waits the parse is done. -/
theorem resume_nil (tree : Except ParseError Section) : Moment.resume [] tree = .done tree := by
  cases tree <;> rfl

/-! ## What is refused -/

/-- The test for a cyclic include looks through all documents that are open. -/
theorem any_same_iff : (d.path :: (framesOf waiting).map (·.path)).any (Path.same target) = true ↔
    ∃ p ∈ pathsOf d.path waiting, Path.same target p = true := by
  rw [List.any_eq_true, pathsOf]
  simp only [List.mem_cons, mem_map_path_framesOf]

/-- A file that can be read is refused as a cycle if it is being read already, and is asked for
otherwise. -/
theorem requested_of_fetch (hname : grantsWriting? name = some writable)
    (hfetch : fs.fetch (Path.join (Path.parent d.path) argument) = .ok (target, text)) :
    requested fs d (framesOf waiting) offset name argument =
      if ∃ p ∈ pathsOf d.path waiting, Path.same target p then
        .error (.cyclicInclude target (d.origin (framesOf waiting) offset))
      else .ok (writable, target, text) := by
  simp only [requested, hname, hfetch]
  exact if_congr any_same_iff rfl rfl

/-- A document is asked for only if it is a file that can be read and that is not being read
already. -/
theorem of_requested_eq_ok
    (h : requested fs d (framesOf waiting) offset name argument = .ok (writable, path, text)) :
    fs.fetch (Path.join (Path.parent d.path) argument) = .ok (path, text) ∧
      ∀ p ∈ pathsOf d.path waiting, ¬ Path.same path p := by
  obtain ⟨-, hfetch, hfresh⟩ := requested_eq_ok_iff.mp h
  refine ⟨hfetch, fun p hp hsame => ?_⟩
  rw [any_same_iff.mpr ⟨p, hp, hsame⟩] at hfresh
  cases hfresh

/-! ## The paths are distinct -/

/-- The paths are distinct, and all but the outermost belong to files. -/
structure Distinct (fs : FileSystem) (paths : List String) : Prop where
  distinct : paths.Pairwise fun p q => ¬ Path.same p q
  files : ∀ p ∈ paths.dropLast, p ∈ fs.files

namespace Distinct

/-- No document is open. -/
theorem nil : Distinct fs [] :=
  ⟨.nil, nofun⟩

/-- The outermost document may be any. -/
theorem singleton : Distinct fs [path] :=
  ⟨List.pairwise_singleton _ path, nofun⟩

/-- Without the innermost document the paths are still distinct. -/
theorem tail (h : Distinct fs (path :: paths)) : Distinct fs paths := by
  refine ⟨(List.pairwise_cons.mp h.distinct).2, fun p hp => h.files p ?_⟩
  have hne : paths ≠ [] := fun hnil => by
    rw [hnil] at hp
    cases hp
  rw [List.dropLast_cons_of_ne_nil hne]
  exact List.mem_cons_of_mem path hp

/-- A file whose path is none of those that are open can be opened. -/
theorem cons (h : Distinct fs paths) (hfile : target ∈ fs.files)
    (hfresh : ∀ p ∈ paths, ¬ Path.same target p) : Distinct fs (target :: paths) := by
  refine ⟨List.pairwise_cons.mpr ⟨hfresh, h.distinct⟩, fun p hp => ?_⟩
  by_cases hnil : paths = []
  · rw [hnil] at hp
    cases hp
  · rw [List.dropLast_cons_of_ne_nil hnil, List.mem_cons] at hp
    rcases hp with rfl | hp
    · exact hfile
    · exact h.files p hp

/-- Distinct paths of files are no more than there are files. -/
theorem length_le (h : Distinct fs paths) : paths.length ≤ fs.files.length + 1 := by
  have hnodup : paths.dropLast.Nodup := by
    refine (h.distinct.sublist (List.dropLast_sublist paths)).imp fun hsame heq => hsame ?_
    rw [heq, Path.same, beq_self_eq_true]
  have hlength := (List.subperm_of_subset hnodup h.files).length_le
  rw [List.length_dropLast] at hlength
  omega

end Distinct

/-- There are no more files than contents. -/
theorem length_files_le (fs : FileSystem) : fs.files.length ≤ fs.contents.size := by
  have hlength := List.length_filter_le (fun path => (fs.read path).toBool) fs.contents.keys
  rwa [OrderedMap.keys, List.length_map] at hlength

/-- What can be read is one of the files. -/
theorem mem_files_of_fetch {p : String} (h : fs.fetch p = .ok (path, text)) : path ∈ fs.files := by
  obtain ⟨canonical, -, h⟩ := Except.bind_eq_ok_iff.mp h
  obtain ⟨text', hread, h⟩ := Except.bind_eq_ok_iff.mp h
  cases h
  refine List.mem_filter.mpr ⟨?_, by rw [hread, Except.toBool]⟩
  rw [FileSystem.read] at hread
  cases hget : fs.contents.get? path with
  | none =>
    rw [hget] at hread
    cases hread
  | some result => exact OrderedMap.mem_keys_of_get? hget

/-! ### Drafts keep their path -/

/-- A header stays in its document. -/
theorem path_of_applyHeader {frames : List Frame} {opening closing : Nat}
    (h : d.applyHeader frames offset opening closing name = .ok d') : d'.path = d.path := by
  obtain ⟨-, -, root, -, rfl⟩ := Draft.applyHeader_eq_ok_iff.mp h
  rfl

/-- An assignment stays in its document. -/
theorem path_of_applyAssign {frames : List Frame} {marker : Option Marker} {op : AssignOp}
    {key raw : String} (h : d.applyAssign frames offset marker key op raw = .ok d') :
    d'.path = d.path := by
  obtain ⟨value, stored, -, -, root, -, rfl⟩ := Draft.applyAssign_eq_ok_iff.mp h
  rfl

/-- Absorbing a tree stays in the document. -/
theorem path_of_absorb {origin : Origin} {included : Section}
    (h : d.absorb origin writable included = .ok d') : d'.path = d.path := by
  obtain ⟨root, -, rfl⟩ := Draft.absorb_eq_ok_iff.mp h
  rfl

/-- Whatever an item does, the document is the same afterwards. -/
theorem path_of_applyItem {parse : (path text : String) → SessionM Section} {s : Session}
    (h : outcome (applyItem fs parse d placed) s = .ok d') : d'.path = d.path := by
  obtain ⟨offset, item⟩ := placed
  cases item with
  | header opening closing name =>
    rw [outcome, run_applyItem_header] at h
    exact path_of_applyHeader h
  | assign marker key op raw =>
    rw [outcome, run_applyItem_assign] at h
    exact path_of_applyAssign h
  | command name argument =>
    obtain ⟨writable, path, text, included, -, -, habsorb⟩ := outcome_applyItem_command_eq_ok h
    exact path_of_absorb habsorb

/-! ### One step, and all of them -/

/-- Going on in the same document keeps the paths distinct. -/
theorem distinct_proceed (h : Distinct fs (pathsOf path waiting))
    (hx : ∀ d', x = .ok d' → d'.path = path) :
    Distinct fs (Moment.proceed waiting items fault x).paths := by
  cases x with
  | error e => exact .nil
  | ok d' =>
    change Distinct fs (pathsOf d'.path waiting)
    rwa [hx d' rfl]

/-- Going back to the document that waits keeps the paths distinct. -/
theorem distinct_resume (h : Distinct fs (pathsOf path waiting)) :
    Distinct fs (Moment.resume waiting tree).paths := by
  cases tree with
  | error e => exact .nil
  | ok root =>
    cases waiting with
    | nil => exact .nil
    | cons w waiting => exact distinct_proceed h.tail fun d' => path_of_absorb

/-- Going into a document is the only step that adds a path, and it is a new one. -/
theorem Distinct.step (h : Distinct fs m.paths) : Distinct fs (m.step fs mode).paths := by
  cases m with
  | done result => exact .nil
  | reading waiting reader =>
    obtain ⟨d, items, fault⟩ := reader
    change Distinct fs (pathsOf d.path waiting) at h
    cases items with
    -- Only a command can add a path, and it does so after a look at those that are there.
    | nil => exact distinct_resume h
    | cons placed items =>
      obtain ⟨offset, item⟩ := placed
      cases item with
      | header opening closing name => exact distinct_proceed h fun d' => path_of_applyHeader
      | assign marker key op raw => exact distinct_proceed h fun d' => path_of_applyAssign
      | command name argument =>
        rw [Moment.step]
        split
        · exact .nil
        · rename_i writable path text hrequested
          obtain ⟨hfetch, hfresh⟩ := of_requested_eq_ok hrequested
          exact h.cons (mem_files_of_fetch hfetch) hfresh

/-- The paths are distinct after any number of steps. -/
theorem Distinct.iterate (h : Distinct fs m.paths) (n : Nat) :
    Distinct fs ((Moment.step fs mode)^[n] m).paths := by
  induction n generalizing m with
  | zero => exact h
  | succ n ih => exact ih h.step

/-! ## The machine parses -/

/-- Some number of steps leads from one moment to the other. -/
def Reaches (fs : FileSystem) (mode : Mode) (m m' : Moment) : Prop :=
  ∃ n, (Moment.step fs mode)^[n] m = m'

namespace Reaches

/-- No step is needed to stay. -/
theorem refl (m : Moment) : Reaches fs mode m m :=
  ⟨0, rfl⟩

/-- One step more leads there, too. -/
theorem step (h : Reaches fs mode (m.step fs mode) m') : Reaches fs mode m m' := by
  obtain ⟨n, hn⟩ := h
  exact ⟨n + 1, hn⟩

/-- Steps can be taken one run after the other. -/
theorem trans (h : Reaches fs mode m m') (h' : Reaches fs mode m' m'') : Reaches fs mode m m'' := by
  obtain ⟨n, rfl⟩ := h
  obtain ⟨n', rfl⟩ := h'
  exact ⟨n' + n, Function.iterate_add_apply _ n' n m⟩

end Reaches

/-- Documents that are gone into while `height` others wait are parsed as `parseDocument` does it up
to the depth. -/
def ParsesAt (fs : FileSystem) (mode : Mode) (depth height : Nat) : Prop :=
  ∀ waiting path text, waiting.length = height → Distinct fs (pathsOf path waiting) →
    Reaches fs mode (.reading waiting (.opened mode path text))
      (.resume waiting (outcome (parseDocument fs depth path text) ⟨mode, framesOf waiting⟩))

/-- The machine applies an item, and parses the document that it includes on the way. -/
theorem reaches_proceed (hparses : ParsesAt fs mode depth (waiting.length + 1))
    (h : Distinct fs (pathsOf d.path waiting)) (placed : PlacedItem) (items : List PlacedItem)
    (fault : Option Nat) :
    Reaches fs mode (.reading waiting ⟨d, placed :: items, fault⟩)
      (.proceed waiting items fault
        (outcome (applyItem fs (parseDocument fs depth) d placed) ⟨mode, framesOf waiting⟩)) := by
  obtain ⟨offset, item⟩ := placed
  -- The machine takes one step for the item itself. For a command it goes on until the included
  -- document is finished, which is the hypothesis.
  refine .step ?_
  cases item with
  | header opening closing name =>
    rw [outcome, run_applyItem_header]
    exact .refl _
  | assign marker key op raw =>
    rw [outcome, run_applyItem_assign]
    exact .refl _
  | command name argument =>
    rw [outcome_applyItem_command (balanced_parseDocument fs depth), Moment.step]
    cases hrequested : requested fs d (framesOf waiting) offset name argument with
    | error e => exact .refl _
    | ok request =>
      obtain ⟨writable, path, text⟩ := request
      obtain ⟨hfetch, hfresh⟩ := of_requested_eq_ok hrequested
      have hnew := h.cons (mem_files_of_fetch hfetch) hfresh
      -- this document now waits for the one that it includes
      have hincluded :=
        hparses (⟨⟨d, items, fault⟩, offset, writable⟩ :: waiting) path text rfl hnew
      rw [framesOf_cons, resume_cons] at hincluded
      exact hincluded

/-- The machine applies the items that are left, and goes back. -/
theorem reaches_resume (hparses : ParsesAt fs mode depth (waiting.length + 1))
    (h : Distinct fs (pathsOf d.path waiting)) :
    Reaches fs mode (.reading waiting ⟨d, items, fault⟩)
      (.resume waiting (items.foldlM (fun d placed =>
          outcome (applyItem fs (parseDocument fs depth) d placed) ⟨mode, framesOf waiting⟩) d >>=
        ended (framesOf waiting) fault)) := by
  induction items generalizing d with
  | nil => exact .step (.refl _)
  | cons placed items ih =>
    refine (reaches_proceed hparses h placed items fault).trans ?_
    rw [List.foldlM_cons]
    cases hplaced : outcome (applyItem fs (parseDocument fs depth) d placed)
        ⟨mode, framesOf waiting⟩ with
    | error e => exact .refl _
    | ok d' =>
      refine ih ?_
      rwa [path_of_applyItem hplaced]

/-- The induction is on the depth. At depth zero more documents would wait than there are files. -/
theorem parsesAt (fs : FileSystem) (mode : Mode) {depth height : Nat}
    (h : fs.contents.size + 1 ≤ height + depth) : ParsesAt fs mode depth height := by
  induction depth generalizing height with
  | zero =>
    intro waiting path text hheight hdistinct
    have hlength := hdistinct.length_le
    have hfiles := length_files_le fs
    rw [pathsOf, List.length_cons, List.length_map] at hlength
    omega
  | succ depth ih =>
    intro waiting path text hheight hdistinct
    have hparses : ParsesAt fs mode depth (waiting.length + 1) := ih (by omega)
    rw [outcome_parseDocument_succ]
    exact reaches_resume hparses hdistinct

/-! ## How includes nest -/

/-- What is true of includes at a moment of a parse. -/
structure Moment.Nests (fs : FileSystem) (mode : Mode) (m : Moment) : Prop where
  /-- No document is read while it waits. -/
  distinct : m.paths.Pairwise fun p q => ¬ Path.same p q
  /-- The outermost document need not be a file; the others are. -/
  bounded : m.paths.length ≤ fs.files.length + 1
  /-- A file that can be read is refused if it is being read already, and gone into otherwise. -/
  command : ∀ {waiting d offset name argument items fault writable target text},
    m = .reading waiting ⟨d, ⟨offset, .command name argument⟩ :: items, fault⟩ →
    grantsWriting? name = some writable →
    fs.fetch (Path.join (Path.parent d.path) argument) = .ok (target, text) →
    m.step fs mode =
      if ∃ p ∈ m.paths, Path.same target p then
        .done (.error (.cyclicInclude target (d.origin (framesOf waiting) offset)))
      else .reading (⟨⟨d, items, fault⟩, offset, writable⟩ :: waiting) (.opened mode target text)
  /-- A file that has just been included may be included again. -/
  again : ∀ {waiting d d' offset name argument offset' name' argument' items fault writable target
      text},
    m = .reading waiting ⟨d, ⟨offset, .command name argument⟩ ::
      ⟨offset', .command name' argument'⟩ :: items, fault⟩ →
    fs.fetch (Path.join (Path.parent d.path) argument) = .ok (target, text) →
    fs.fetch (Path.join (Path.parent d.path) argument') = .ok (target, text) →
    grantsWriting? name' = some writable →
    outcome (applyItem fs (parseDocument fs fs.contents.size) d ⟨offset, .command name argument⟩)
      ⟨mode, framesOf waiting⟩ = .ok d' →
    ∃ n, (Moment.step fs mode)^[n] m =
        .reading waiting ⟨d', ⟨offset', .command name' argument'⟩ :: items, fault⟩ ∧
      (Moment.step fs mode)^[n + 1] m =
        .reading (⟨⟨d', items, fault⟩, offset', writable⟩ :: waiting) (.opened mode target text)

/-- A command that is known and whose file can be read is refused exactly if the file is open. -/
theorem step_command {writable : Bool} (hname : grantsWriting? name = some writable)
    (hfetch : fs.fetch (Path.join (Path.parent d.path) argument) = .ok (target, text)) :
    (Moment.reading waiting ⟨d, ⟨offset, .command name argument⟩ :: items, fault⟩).step fs mode =
      if ∃ p ∈ pathsOf d.path waiting, Path.same target p then
        .done (.error (.cyclicInclude target (d.origin (framesOf waiting) offset)))
      else .reading (⟨⟨d, items, fault⟩, offset, writable⟩ :: waiting)
        (.opened mode target text) := by
  rw [Moment.step, requested_of_fetch hname hfetch]
  split_ifs <;> rfl

/-- Distinct paths are what a moment of a parse needs: the nesting is bounded, and an include is
refused if and only if its file is open. -/
theorem nests_of_distinct (h : Distinct fs m.paths) : m.Nests fs mode where
  distinct := h.distinct
  bounded := h.length_le
  command := by
    rintro waiting d offset name argument items fault writable target text rfl hname hfetch
    exact step_command hname hfetch
  again := by
    rintro waiting d d' offset name argument offset' name' argument' items fault writable target
      text rfl hfetch hfetch' hname' hplaced
    have hparses : ParsesAt fs mode fs.contents.size (waiting.length + 1) :=
      parsesAt fs mode (by omega)
    obtain ⟨n, hn⟩ := reaches_proceed hparses h ⟨offset, .command name argument⟩
      (⟨offset', .command name' argument'⟩ :: items) fault
    rw [hplaced, Moment.proceed] at hn
    refine ⟨n, hn, ?_⟩
    -- the first command was not refused, and the same documents wait for the second one
    obtain ⟨writable', path, text', included, hrequested, -, habsorb⟩ :=
      outcome_applyItem_command_eq_ok hplaced
    obtain ⟨hfetch₁, hfresh⟩ := of_requested_eq_ok hrequested
    obtain ⟨rfl, rfl⟩ := Prod.mk.inj (Except.ok.inj (hfetch₁.symm.trans hfetch))
    have hpath := path_of_absorb habsorb
    rw [Function.iterate_succ_apply', hn, step_command hname' (hpath ▸ hfetch'), if_neg]
    rw [hpath]
    rintro ⟨p, hp, hsame⟩
    exact hfresh p hp hsame

/-- However documents include one another, a parse comes to an end, and on the way to it no document
is gone into while it is being read. -/
theorem parseText_terminates (fs : FileSystem) (mode : Mode) (path text : String) :
    (∃ n result, (Moment.step fs mode)^[n] (.reading [] (.opened mode path text)) = .done result ∧
      LayeredConfig.parseText fs mode text path = result >>= finish) ∧
    ∀ n, ((Moment.step fs mode)^[n] (.reading [] (.opened mode path text))).Nests fs mode := by
  have hdistinct : Distinct fs (pathsOf path []) := .singleton
  constructor
  · have hparses : ParsesAt fs mode (fs.contents.size + 1) 0 := parsesAt fs mode (by omega)
    obtain ⟨n, hn⟩ := hparses [] path text rfl hdistinct
    exact ⟨n, _, hn.trans (resume_nil _), parseText_eq fs mode path text⟩
  · intro n
    exact nests_of_distinct (Distinct.iterate (m := .reading [] (.opened mode path text))
      hdistinct n)

end Session

end LayeredConfig
