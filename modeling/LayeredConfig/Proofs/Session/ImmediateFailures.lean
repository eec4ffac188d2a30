import LayeredConfig.Proofs.Section.ReferenceErrors
import LayeredConfig.Proofs.Session.BackTraces

/-!
# Immediate assignments that fail

When the references of an immediate assignment cannot be evaluated, the parse ends with an error
about its key. The place that the error shows is taken from the definitions of this key. Only where
the key has none is it the place of the assignment; otherwise it is the latest definition, an item
that has defined the key before (`immediate_failure_origin`).
-/

namespace LayeredConfig

namespace Draft

variable {d : Draft} {frames : List Frame} {offset : Nat} {marker : Option Marker}
  {key raw : String} {t : Template} {r : ReferenceError}

/-- The error that is reported for an immediate assignment to `key`: the definitions of the key are
shown, or the assignment itself if there are none. -/
def reported (d : Draft) (origin : Origin) (key : String) (r : ReferenceError) : ReferenceError :=
  match d.root.lookupAttrs? (d.sections ++ [key]) with
  | none => { r with history := .ofOrigin origin }
  | some attrs => { r with history := attrs.history }

/-- What is reported differs from the fault in the history only. -/
theorem reported_eq (d : Draft) (origin : Origin) (key : String) (r : ReferenceError) :
    d.reported origin key r = { r with history := (d.reported origin key r).history } := by
  unfold reported
  split <;> rfl

/-- An immediate assignment whose references cannot be evaluated fails with this error, if stored
keys have a history. -/
theorem applyAssign_of_evaluateImmediate_eq_error (hraw : Template.parse raw = .ok (.template t))
    (hfails : d.root.evaluateImmediate (d.sections ++ [key]) t = .error r)
    (hstored : ∀ attrs, d.root.lookupAttrs? (d.sections ++ [key]) = some attrs →
      attrs.history.origins ≠ []) :
    d.applyAssign frames offset marker key .immediate raw =
      .error (.reference (d.reported (d.origin frames offset) key r)) := by
  have hstoredValue : d.storedValue (d.origin frames offset) key .immediate (.template t) =
      .error (.reference (d.reported (d.origin frames offset) key r)) := by
    rw [storedValue, hfails, reported]
    obtain ⟨fault, ref, rfl⟩ := Section.exists_of_evaluateImmediate_eq_error hfails
    -- A key that is not stored has no history, and the assignment takes its place.
    cases hlookup : d.root.lookupAttrs? (d.sections ++ [key]) with
    | none =>
      simp only [Section.referenceError, hlookup]
      rfl
    | some attrs =>
      have hne : attrs.history.isEmpty = false := by
        simpa [Provenance.isEmpty] using hstored attrs hlookup
      simp only [Section.referenceError, hlookup, Option.map_some, Option.getD_some,
        Except.mapError, hne, Bool.false_eq_true, if_false]
  rw [applyAssign, hraw]
  show (d.storedValue (d.origin frames offset) key .immediate (.template t) >>= _) = _
  rw [hstoredValue]
  rfl

end Draft

namespace Session

variable {fs : FileSystem} {mode : Mode} {m : Moment} {x y : Except ParseError Section}
  {path text key raw : String} {waiting : List Waiting} {d : Draft} {offset : Nat}
  {marker : Option Marker} {items : List PlacedItem} {fault : Option Nat} {t : Template}
  {r : ReferenceError} {e : ParseError}

/-- A document that is opened has the items of its text before it. -/
theorem Reader.opened_eq {source : String} (hsource : sourceOf text = source)
    (hread : Document.read mode source = ⟨items, fault⟩) :
    Reader.opened mode path text = ⟨{ path, source }, items, fault⟩ := by
  rw [opened, ← sourceOf, hsource, hread]

/-- A parse that is done takes no more steps. -/
theorem iterate_step_done (x : Except ParseError Section) (n : Nat) :
    (Moment.step fs mode)^[n] (.done x) = .done x := by
  induction n with
  | zero => rfl
  | succ n ih => exact ih

/-- A parse has one result. -/
theorem Reaches.done_unique (h : Reaches fs mode m (.done x)) (h' : Reaches fs mode m (.done y)) :
    x = y := by
  obtain ⟨n, hn⟩ := h
  obtain ⟨n', hn'⟩ := h'
  have hx : (Moment.step fs mode)^[n' + n] m = .done x := by
    rw [Function.iterate_add_apply, hn, iterate_step_done]
  have hy : (Moment.step fs mode)^[n' + n] m = .done y := by
    rw [Nat.add_comm, Function.iterate_add_apply, hn', iterate_step_done]
  exact Moment.done.inj (hx.symm.trans hy)

/-- A parse fails with the error that the machine ends in. -/
theorem parseText_of_reaches_error
    (h : Reaches fs mode (.reading [] (.opened mode path text)) (.done (.error e))) :
    LayeredConfig.parseText fs mode text path = .error e := by
  obtain ⟨⟨n, result, hn, hparse⟩, -⟩ := parseText_terminates fs mode path text
  rw [hparse, ← h.done_unique ⟨n, hn⟩]
  rfl

/-- A document that the parse comes to is one that the outermost document leads to. -/
theorem Reaches.follows {r : Reader}
    (h : Reaches fs mode (.reading [] (.opened mode path text)) (.reading waiting r)) :
    ∃ text', Follows fs mode path text text' (framesOf waiting) r := by
  have hopened : Throughout (fun frames r => ∃ text', Follows fs mode path text text' frames r) []
      (.opened mode path text) :=
    .outermost ⟨text, follows_opened .outermost rfl⟩
  obtain ⟨n, hn⟩ := h
  have hholds := holds_iterate (follows_readerInvariant fs mode path text)
    (m := .reading [] (.opened mode path text)) hopened n
  rw [hn] at hholds
  exact hholds.here

/-- An immediate assignment whose references cannot be evaluated ends the parse with an error about
its key. The error shows the place of the assignment if the key has no definition at that moment.
Otherwise it shows the latest of its definitions, an item that has defined the key. -/
theorem immediate_failure_origin
    (h : Reaches fs mode (.reading [] (.opened mode path text))
      (.reading waiting ⟨d, ⟨offset, .assign marker key .immediate raw⟩ :: items, fault⟩))
    (hraw : Template.parse raw = .ok (.template t))
    (hfails : d.root.evaluateImmediate (d.sections ++ [key]) t = .error r) :
    ∃ e : ReferenceError, LayeredConfig.parseText fs mode text path = .error (.reference e) ∧
      (∀ file, fs.fetch file = .ok (path, text) →
        LayeredConfig.parseFile fs mode file = .error (.reference e)) ∧
      e.key = d.sections ++ [key] ∧ e = { r with history := e.history } ∧
      (∃ text', Stands mode text' offset (.assign marker key .immediate raw) ∧
        Traces fs mode path text (d.origin (framesOf waiting) offset).trail d.path text' offset) ∧
      (d.root.lookupAttrs? (d.sections ++ [key]) = none →
        (ParseError.reference e).origin? = some (d.origin (framesOf waiting) offset)) ∧
      ∀ attrs, d.root.lookupAttrs? (d.sections ++ [key]) = some attrs →
        ∃ origin, (ParseError.reference e).origin? = some origin ∧
          attrs.history.latest? = some origin ∧ DefinedAt fs mode path text key origin := by
  obtain ⟨text', hfollows⟩ := h.follows
  have hmade (attrs : KeyAttrs)
      (hattrs : d.root.lookupAttrs? (d.sections ++ [key]) = some attrs) :
      attrs.history.MadeOf (DefinedAt fs mode path text key) := by
    obtain ⟨entry, hentry, rfl⟩ := Option.map_eq_some_iff.mp hattrs
    exact Section.EachEntry.entryAt? hfollows.recording hentry
  -- the history of a stored key is not empty, so that it is the one that is reported
  have hassign : d.applyAssign (framesOf waiting) offset marker key .immediate raw =
      .error (.reference (d.reported (d.origin (framesOf waiting) offset) key r)) :=
    Draft.applyAssign_of_evaluateImmediate_eq_error hraw hfails
      fun attrs hattrs => (hmade attrs hattrs).1
  have hparse : LayeredConfig.parseText fs mode text path = .error (.reference
      (d.reported (d.origin (framesOf waiting) offset) key r)) := by
    apply parseText_of_reaches_error
    refine h.trans (.step ?_)
    rw [Moment.step, hassign]
    exact .refl _
  have hkey : r.key = d.sections ++ [key] := by
    obtain ⟨_, ref, rfl⟩ := Section.exists_of_evaluateImmediate_eq_error hfails
    rfl
  refine ⟨_, hparse, fun file hfetch => ?_, ?_, d.reported_eq _ key r,
    ⟨text', hfollows.stands, hfollows.traces hfollows.stands.mem_places⟩, fun hnone => ?_,
    fun attrs hattrs => ?_⟩
  · rw [parseFile_of_fetch hfetch, hparse]
  · rw [d.reported_eq, hkey]
  · rw [ParseError.origin?, Draft.reported, hnone]
    rfl
  · obtain ⟨hne, hdefined⟩ := hmade attrs hattrs
    have hlatest := List.getLast?_eq_some_getLast hne
    refine ⟨_, ?_, hlatest, hdefined _ (List.getLast_mem hne)⟩
    rw [ParseError.origin?, Draft.reported, hattrs]
    exact hlatest

/-- A document that has a key and inherits another document, in which the key is assigned. -/
def handing : FileSystem :=
  { canonicalize := .ok
    contents := ⟨[
      ("/main", .ok "v = 1\n@inherit(part)\n"),
      ("/part", .ok "# w\n\tv := x(!w)\n")]⟩ }

/-- The first document as it waits for the second one. -/
def handed : Waiting :=
  { reader :=
      { draft :=
          { path := "/main"
            source := "v = 1\n@inherit(part)\n"
            root := { name := none, entries := ⟨[("v", ⟨.scalar (.text "1"),
              { history := .ofOrigin
                  { trail := [.inSource "/main" "v = 1\n@inherit(part)\n" 0]
                    sections := { segments := [] } } }⟩)]⟩ } }
        items := []
        fault := none }
    offset := 6
    writable := true }

/-- The second document. -/
def handedTo : Draft :=
  { path := "/part", source := "# w\n\tv := x(!w)\n" }

/-- The parse of the outer document comes to the assignment in the inner one. -/
theorem reaches_handedTo :
    Reaches handing .config (.reading [] (.opened .config "/main" "v = 1\n@inherit(part)\n"))
      (.reading [handed] ⟨handedTo, [⟨5, .assign none "v" .immediate "x(!w)"⟩], none⟩) := by
  have hmain : Reader.opened .config "/main" "v = 1\n@inherit(part)\n" =
      ⟨{ path := "/main", source := "v = 1\n@inherit(part)\n" },
        [⟨0, .assign none "v" .deferred "1"⟩, ⟨6, .command "inherit" "part"⟩], none⟩ :=
    Reader.opened_eq (by decide +kernel) (by decide +kernel)
  have hpart : Reader.opened .config "/part" "# w\n\tv := x(!w)\n" =
      ⟨handedTo, [⟨5, .assign none "v" .immediate "x(!w)"⟩], none⟩ :=
    Reader.opened_eq (by decide +kernel) (by decide +kernel)
  have hassign : Draft.applyAssign { path := "/main", source := "v = 1\n@inherit(part)\n" }
      (framesOf []) 0 none "v" .deferred "1" = .ok handed.reader.draft := by
    decide +kernel
  have hrequested : requested handing handed.reader.draft (framesOf []) 6 "inherit" "part" =
      .ok (true, "/part", "# w\n\tv := x(!w)\n") := by
    decide +kernel
  -- One step for the assignment in the outer document, and one for the command.
  rw [hmain]
  refine .step ?_
  rw [Moment.step, hassign]
  refine .step ?_
  rw [Moment.proceed, Moment.step, hrequested]
  dsimp only
  rw [hpart]
  exact .refl _

/-- The key is defined in the document that waits, but not in the one that assigns it. -/
theorem immediate_failure_origin_handing :
    ∃ t r, Template.parse "x(!w)" = .ok (.template t) ∧
      handedTo.root.evaluateImmediate ["v"] t = .error r ∧
      ∃ e : ReferenceError, LayeredConfig.parseFile handing .config "/main" =
          .error (.reference e) ∧
        (ParseError.reference e).origin? = some
          { trail := [
              .inSource "/main" "v = 1\n@inherit(part)\n" 6,
              .inSource "/part" "# w\n\tv := x(!w)\n" 5]
            sections := { segments := [] } } := by
  have hraw : Template.parse "x(!w)" = .ok (.template
      { fragments := [.literal "x", .reference { absolute := false, segments := ["w"] }] }) := by
    decide +kernel
  have hfails : handedTo.root.evaluateImmediate (handedTo.sections ++ ["v"])
      { fragments := [.literal "x", .reference { absolute := false, segments := ["w"] }] } =
        .error (handedTo.root.referenceError .unresolved ["v"] ["v"]
          { absolute := false, segments := ["w"] }) := by
    decide +kernel
  obtain ⟨e, -, hfile, -, -, -, hnone, -⟩ :=
    immediate_failure_origin reaches_handedTo hraw hfails
  exact ⟨_, _, hraw, hfails, e, hfile "/main" rfl, hnone rfl⟩

/-- An immediate assignment to a key that the line before it has defined. -/
def redefining : String :=
  "~v = 1\nv := (!missing)\n"

/-- The place of a byte of that document. -/
def redefiningAt (offset : Nat) : Origin :=
  { trail := [.inSource "main.conf" redefining offset], sections := { segments := [] } }

/-- What is reported for the second line. -/
def redefiningError : ReferenceError :=
  { fault := .unresolved
    key := ["v"]
    history := .ofOrigin (redefiningAt 0)
    chain := ["v"]
    target := ["missing"] }

/-- It shows the first line. -/
theorem redefining_shows_first_line :
    (readText .config redefining).items =
        [⟨0, .assign (some .temporary) "v" .deferred "1"⟩,
          ⟨7, .assign none "v" .immediate "(!missing)"⟩] ∧
      LayeredConfig.parseText .empty .config redefining
        "main.conf" = .error (.reference redefiningError) ∧
      (ParseError.reference redefiningError).origin? ≠ some (redefiningAt 7) := by
  decide +kernel

end Session

end LayeredConfig
