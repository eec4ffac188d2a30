import LayeredConfig.Proofs.Section.Evaluation
import LayeredConfig.Proofs.Section.Temporary
import LayeredConfig.Proofs.Session.Frames
import LayeredConfig.Proofs.Session.Invariants

/-!
# What a finished document holds

When a parse succeeds, the tree that its items have built has been evaluated and then restricted to
the paths without temporary keys. The order matters: the references are looked up in a tree that
still holds the temporary keys, so that their texts are in the result although they are not. That
keys are distinct at every point of every document is what makes the restriction exact.
-/

namespace LayeredConfig

namespace Section

variable {built evaluated root s s' : Section} {path p : List String} {k : String} {e : Entry}

/-! ## Evaluated trees -/

/-- An evaluated value is not a template. -/
theorem evaluateValue_ne_template {v v' : Value} (h : evaluateValue root path v = .ok v')
    (t : Template) : v' ≠ .scalar (.template t) := by
  rintro rfl
  cases v with
  | subsection s =>
    obtain ⟨s', -, heq⟩ := Except.map_eq_ok_iff.mp h
    cases heq
  | scalar scalar =>
    cases scalar with
    | text x => cases h
    | template t' =>
      obtain ⟨x, -, heq⟩ := Except.map_eq_ok_iff.mp h
      cases heq

/-- A template becomes what its references come to in the evaluated tree. -/
theorem evaluateAll_textIn (h : built.evaluateAll = .ok evaluated) {t : Template}
    (ht : built.lookup? p = some (.scalar (.template t))) :
    ∃ x, evaluated.lookup? p = some (.scalar (.text x)) ∧ t.textIn evaluated p = some x := by
  obtain ⟨x, hx, htext⟩ := evaluateAll_template h ht
  refine ⟨x, hx, Fragment.textsWith_of_pieces (fun ref y hy => ?_) t.fragments htext⟩
  exact evaluateAll_textAt? h hy

/-! ## Completed trees -/

/-- The tree `root` is `built` evaluated and without temporary keys: nothing but the temporary keys
of the evaluated tree and what is below them has gone. What a template has become was read off the
evaluated tree, temporary keys included. -/
structure Completes (built evaluated root : Section) : Prop where
  evaluateAll_eq : built.evaluateAll = .ok evaluated
  restricts : Restricts evaluated root
  finished : ∀ p e, root.entryAt? p = some e →
    e.attrs.flags.temporary = false ∧ ∀ t, e.value ≠ .scalar (.template t)
  template : ∀ p t, built.lookup? p = some (.scalar (.template t)) → evaluated.LastingAlong p →
    ∃ x, root.lookup? p = some (.scalar (.text x)) ∧ t.textIn evaluated p = some x

/-- An evaluated tree without its temporary keys is what the document has to hand out. -/
theorem completes_dropTemporaryDeep (h : built.evaluateAll = .ok evaluated)
    (hkeys : built.Everywhere KeysDistinct) :
    Completes built evaluated evaluated.dropTemporaryDeep := by
  have hkeys' := evaluateAll_keysDistinct h hkeys
  -- Two things are to be shown: no entry that is left is temporary or a template, and the text of
  -- every template that has no temporary key on its path is left.
  refine ⟨h, restricts_dropTemporaryDeep hkeys', ?_, ?_⟩
  · intro p e' he'
    obtain ⟨hlasting, e, he, rfl⟩ := entryAt?_dropTemporaryDeep hkeys' he'
    refine ⟨hlasting p e (List.prefix_refl p) he, fun t ht => ?_⟩
    -- the entry has been evaluated before, and dropping keys does not touch a scalar
    have hentry := evaluateAll_entryAt? h p
    rw [he] at hentry
    generalize built.entryAt? p = old at hentry
    cases hentry with
    | some heval =>
      have hscalar : e.value.scalar? = some (.template t) := by
        rw [← scalar?_dropTemporaryValue, show dropTemporaryValue e.value = _ from ht]
        rfl
      obtain ⟨value, attrs⟩ := e
      cases value with
      | subsection sub => cases hscalar
      | scalar v =>
        cases hscalar
        exact evaluateValue_ne_template heval.2 t rfl
  · intro p t ht hlasting
    obtain ⟨x, hx, htext⟩ := evaluateAll_textIn h ht
    obtain ⟨e, he, hvalue⟩ := Option.map_eq_some_iff.mp hx
    refine ⟨x, ?_, htext⟩
    rw [lookup?, entryAt?_of_lastingAlong hkeys' hlasting he, Option.map_some, withoutTemporary,
      hvalue]
    rfl

end Section

namespace Session

variable {fs : FileSystem} {mode : Mode} {text path : String} {root built : Section}

/-- A tree is finished if all of its references can be evaluated, and then loses its temporary
keys. -/
theorem finish_eq_ok_iff :
    finish built = .ok root ↔
      ∃ evaluated, built.evaluateAll = .ok evaluated ∧ evaluated.dropTemporaryDeep = root := by
  simp only [finish, Except.map_eq_ok_iff, Except.mapError_eq_ok_iff]

/-- Completing a tree fails only over a reference. -/
theorem finish_eq_error_iff {e : ParseError} :
    finish built = .error e ↔ ∃ r, built.evaluateAll = .error r ∧ e = .reference r := by
  rw [finish, Except.map_eq_error_iff]
  cases built.evaluateAll with
  | ok evaluated =>
    constructor
    · intro h
      cases h
    · rintro ⟨r, hr, -⟩
      cases hr
  | error r =>
    constructor
    · intro h
      cases h
      exact ⟨r, rfl, rfl⟩
    · rintro ⟨r', hr', rfl⟩
      cases hr'
      rfl

/-- A text that is parsed has built a tree, which has been completed. -/
theorem completes_of_parseText (h : LayeredConfig.parseText fs mode text path = .ok root) :
    ∃ built evaluated,
      outcome (parseDocument fs (fs.contents.size + 1) path text) { mode } = .ok built ∧
      Section.Completes built evaluated root := by
  rw [parseText_eq] at h
  obtain ⟨built, hbuilt, hfinish⟩ := Except.bind_eq_ok_iff.mp h
  obtain ⟨evaluated, heval, rfl⟩ := finish_eq_ok_iff.mp hfinish
  have horderly := Section.orderly_documentInvariant.parseDocument hbuilt
  exact ⟨built, evaluated, hbuilt,
    Section.completes_dropTemporaryDeep heval (horderly.imp fun _ hs => hs.keysDistinct)⟩

/-- A file that can be read is parsed as its text, under its canonical path. -/
theorem parseFile_of_fetch {canonical : String} (h : fs.fetch path = .ok (canonical, text)) :
    LayeredConfig.parseFile fs mode path = LayeredConfig.parseText fs mode text canonical := by
  unfold LayeredConfig.parseFile Session.parseFile
  rw [h]
  rfl

/-- A file that cannot be read is the error, with the whole file as its place. -/
theorem parseFile_of_fetch_error {cause : FileError} (h : fs.fetch path = .error cause) :
    LayeredConfig.parseFile fs mode path = .error (.fileAccess path cause (.ofFile path)) := by
  unfold LayeredConfig.parseFile Session.parseFile
  rw [h]
  rfl

/-- A file is parsed like the text that it holds, under its canonical path. -/
theorem parseFile_eq_ok_iff :
    LayeredConfig.parseFile fs mode path = .ok root ↔
      ∃ canonical text, fs.fetch path = .ok (canonical, text) ∧
        LayeredConfig.parseText fs mode text canonical = .ok root := by
  cases hfetch : fs.fetch path with
  | error cause =>
    rw [parseFile_of_fetch_error hfetch]
    constructor
    · intro h
      cases h
    · rintro ⟨canonical, text, hfile, -⟩
      cases hfile
  | ok file =>
    rw [parseFile_of_fetch hfetch]
    constructor
    · intro h
      exact ⟨file.1, file.2, rfl, h⟩
    · rintro ⟨canonical, text, hfile, h⟩
      cases hfile
      exact h

/-- A document that is parsed, be it a text or a file, holds neither templates nor temporary keys.
It is the tree that its items have built, fully evaluated and then restricted to the paths on which
no key is temporary. -/
theorem parse_completes (fs : FileSystem) (mode : Mode) (path : String) (root : Section) :
    (∀ text, LayeredConfig.parseText fs mode text path = .ok root → ∃ built evaluated,
      outcome (parseDocument fs (fs.contents.size + 1) path text) { mode } = .ok built ∧
        Section.Completes built evaluated root) ∧
    (LayeredConfig.parseFile fs mode path = .ok root → ∃ canonical text built evaluated,
      fs.fetch path = .ok (canonical, text) ∧
        outcome (parseDocument fs (fs.contents.size + 1) canonical text) { mode } = .ok built ∧
        Section.Completes built evaluated root) := by
  refine ⟨fun text => completes_of_parseText, fun h => ?_⟩
  obtain ⟨canonical, text, hfetch, hparse⟩ := parseFile_eq_ok_iff.mp h
  obtain ⟨built, evaluated, hbuilt, hcompletes⟩ := completes_of_parseText hparse
  exact ⟨canonical, text, built, evaluated, hfetch, hbuilt, hcompletes⟩

/-- A file system with a document that includes another one, which refers to a temporary key of the
first. -/
def feeding : FileSystem :=
  { canonicalize := .ok
    contents := ⟨[
      ("/main", .ok "~t = (!u)!\n~u = x\n@include(part)\n"),
      ("/part", .ok "[s]\na = <(!:t)>\n~b = y\n[[c]]\nd = (!:s:b)\n")]⟩ }

/-- A file that includes another, and a text in schema mode, both with a temporary key that is
referred to. -/
theorem parse_completes_feeding :
    ∃ root root', LayeredConfig.parseFile feeding .config "/main" = .ok root ∧
      root.textAt? ["s", "a"] = some "<x!>" ∧
      (∃ built evaluated, Section.Completes built evaluated root) ∧
      LayeredConfig.parseText feeding .schema "~k = v\na = (!k)\n" "/other" = .ok root' ∧
      root'.textAt? ["a"] = some "v" ∧
      ∃ built evaluated, Section.Completes built evaluated root' := by
  obtain ⟨root, hfile, htext⟩ := Except.exists_of_any_toOption
    (LayeredConfig.parseFile feeding .config "/main")
    (fun root => root.textAt? ["s", "a"] == some "<x!>") (by decide +kernel)
  obtain ⟨root', hstring, htext'⟩ := Except.exists_of_any_toOption
    (LayeredConfig.parseText feeding .schema "~k = v\na = (!k)\n" "/other")
    (fun root => root.textAt? ["a"] == some "v") (by decide +kernel)
  obtain ⟨-, -, built, evaluated, -, -, hcompletes⟩ :=
    (parse_completes feeding .config "/main" root).2 hfile
  obtain ⟨built', evaluated', -, hcompletes'⟩ :=
    (parse_completes feeding .schema "/other" root').1 _ hstring
  exact ⟨root, root', hfile, beq_iff_eq.mp htext, ⟨built, evaluated, hcompletes⟩, hstring,
    beq_iff_eq.mp htext', built', evaluated', hcompletes'⟩

end Session

end LayeredConfig
