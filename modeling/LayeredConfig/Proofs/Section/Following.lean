import LayeredConfig.Proofs.Section.ReferenceErrors
import Mathlib.Logic.Function.Iterate

/-!
# Evaluating with an explicit stack

References may lead anywhere, and the recursion of `referenceText` is bounded by a number. Here the
same evaluation is a machine without a bound. It walks through the tree, and where it meets a
template it joins the texts of the fragments; templates that wait for one of their fragments lie on
a stack, and the names of the keys whose references are being followed are the history.

A reference is followed only if the name of its key is not in the history. So at every moment the
names are distinct (`Tracks`), each is that of a template of the tree, and there are never more of
them than templates. This is what makes the bound of the recursion harmless: `returns` follows a
reference in the machine until it comes back, by induction on a number that the history does not
exhaust.
-/

namespace LayeredConfig

/-! ## The machine -/

namespace Evaluator

/-- A section that is being walked through: the entries that have been evaluated, and those that are
left. -/
structure Level where
  path : List String
  name : Option String
  before : List (String × Entry)
  left : List (String × Entry)

/-- An entry of a section whose value is being evaluated. The section goes on behind it. -/
structure Place where
  level : Level
  key : String
  attrs : KeyAttrs

/-- The section once the value of the entry has been evaluated. -/
def Place.filled (place : Place) (value : Value) : Level :=
  { place.level with before := place.level.before ++ [(place.key, ⟨value, place.attrs⟩)] }

/-- A template, the value of `key`, that waits for one of its fragments: the text of the fragments
before it, and those that are left. -/
structure Pending where
  key : List String
  text : String
  left : List Fragment
  /-- The fragment is a reference, for which the name of the key has been put on the history. -/
  follows : Bool

end Evaluator

/-- The evaluation of a template of the tree. -/
structure Evaluator where
  /-- The entry that holds the template. -/
  place : Evaluator.Place
  /-- The entries around it, innermost first. -/
  outer : List Evaluator.Place
  /-- The names of the keys whose references are being followed, outermost first. -/
  history : List String := []
  /-- The templates that wait, innermost first. -/
  stack : List Evaluator.Pending := []

namespace Evaluator

/-- The evaluation while a template waits for one of its fragments. -/
def waitFor (ev : Evaluator) (key : List String) (text : String) (left : List Fragment)
    (follows : Bool) : Evaluator :=
  { ev with
    history := if follows then ev.history ++ [pathName key] else ev.history
    stack := ⟨key, text, left, follows⟩ :: ev.stack }

/-- A moment of the evaluation of a tree. -/
inductive Moment
  | walking (outer : List Place) (level : Level)
  /-- The fragments of the value of `key` are joined. -/
  | joining (ev : Evaluator) (key : List String) (text : String) (left : List Fragment)
  /-- What has been evaluated, a template or what a reference leads to, is left with a result. -/
  | leaving (ev : Evaluator) (result : Except ReferenceError String)
  | done (result : Except ReferenceError Section)

namespace Moment

/-- The start of an evaluation. -/
def start (root : Section) : Moment :=
  walking [] ⟨[], root.name, [], root.entries.toList⟩

/-- The names of the keys whose references are being followed. -/
def history : Moment → List String
  | joining ev _ _ _ => ev.history
  | leaving ev _ => ev.history
  | _ => []

/-- The templates that wait. -/
def stack : Moment → List Pending
  | joining ev _ _ _ => ev.stack
  | leaving ev _ => ev.stack
  | _ => []

/-- Goes on with what has been evaluated. An error ends the evaluation of the tree. -/
def andThen {α : Type} (next : α → Moment) : Except ReferenceError α → Moment
  | .ok a => next a
  | .error e => done (.error e)

/-- Goes back to the section around one that has been walked through. -/
def close : List Place → Section → Moment
  | [], s => done (.ok s)
  | place :: outer, s => walking outer (place.filled (.subsection s))

/-- Goes on with the fragments that are left once one has a text. If it has none, the template has
none either. -/
def proceed (ev : Evaluator) (key : List String) (text : String) (left : List Fragment) :
    Except ReferenceError String → Moment
  | .ok s => joining ev key (text ++ s) left
  | .error e => leaving ev (.error e)

/-- Follows a reference in the value of `key`. -/
def follow (root : Section) (ev : Evaluator) (key : List String) (text : String)
    (left : List Fragment) (ref : Reference) : Moment :=
  let history := ev.history ++ [pathName key]
  if ev.history.contains (pathName key) then
    leaving ev (.error (root.referenceError .cycle history key ref))
  else
    let ev := ev.waitFor key text left true
    match root.lookup? (ref.resolve key) with
    | none => leaving ev (.error (root.referenceError .unresolved history key ref))
    | some (.subsection _) =>
      leaving ev (.error (root.referenceError .sectionReference history key ref))
    | some (.scalar (.text s)) => leaving ev (.ok s)
    | some (.scalar (.template t)) => joining ev (ref.resolve key) "" t.fragments

/-- Goes back to the innermost template that waits, and to the tree if there is none. A name that
has been put on the history is taken off again, however the reference has ended. -/
def resume (ev : Evaluator) (result : Except ReferenceError String) : Moment :=
  match ev.stack with
  | w :: stack =>
    let history := if w.follows then ev.history.dropLast else ev.history
    proceed { ev with history, stack } w.key w.text w.left result
  | [] => andThen (fun s => walking ev.outer (ev.place.filled (.scalar (.text s)))) result

/-- One step of an evaluation. -/
def step (root : Section) : Moment → Moment
  | walking outer ⟨_, name, entries, []⟩ => close outer ⟨name, ⟨entries⟩⟩
  | walking outer ⟨path, name, before, (key, ⟨value, attrs⟩) :: left⟩ =>
    let place : Place := ⟨⟨path, name, before, left⟩, key, attrs⟩
    match value with
    | .scalar (.text s) => walking outer (place.filled (.scalar (.text s)))
    | .scalar (.template t) => joining { place, outer } (path ++ [key]) "" t.fragments
    | .subsection s => walking (place :: outer) ⟨path ++ [key], s.name, [], s.entries.toList⟩
  | joining ev _ text [] => leaving ev (.ok text)
  | joining ev key text (.literal s :: left) => joining ev key (text ++ s) left
  | joining ev key text (.nested fragments :: left) =>
    joining (ev.waitFor key text left false) key "" fragments
  | joining ev key text (.reference ref :: left) => follow root ev key text left ref
  | leaving ev result => resume ev result
  | done result => done result

end Moment

open Section

variable {root : Section} {ev : Evaluator} {m m' m'' : Moment} {key chain : List String}
  {text : String} {left : List Fragment} {n : Nat}

/-- What waits is gone back to as it was. -/
theorem resume_waitFor (ev : Evaluator) (key : List String) (text : String)
    (left : List Fragment) (follows : Bool) (result : Except ReferenceError String) :
    Moment.resume (ev.waitFor key text left follows) result =
      .proceed ev key text left result := by
  cases follows with
  | false => rfl
  | true =>
    unfold Moment.resume waitFor
    simp only [if_true, List.dropLast_concat]

/-! ## The names are distinct -/

/-- The names of the keys whose references are being followed while the templates wait. -/
def namesOf (stack : List Pending) : List String :=
  ((stack.filter (·.follows)).map fun w => pathName w.key).reverse

/-- The history has the names of the keys whose references are being followed, no name comes twice,
and all templates that wait are in the tree. -/
structure Tracks (root : Section) (ev : Evaluator) : Prop where
  history : ev.history = namesOf ev.stack
  distinct : ev.history.Nodup
  keys : ∀ w ∈ ev.stack, w.key ∈ root.templateKeys []

namespace Tracks

/-- At the start of a template no key is being followed. -/
theorem fresh (root : Section) (place : Place) (outer : List Place) :
    Tracks root { place, outer } :=
  ⟨rfl, List.nodup_nil, List.forall_mem_nil _⟩

/-- Waiting for a nested template puts no name on the history. -/
theorem waitNested (h : Tracks root ev) (hkey : key ∈ root.templateKeys []) (text : String)
    (left : List Fragment) : Tracks root (ev.waitFor key text left false) :=
  ⟨h.history, h.distinct, List.forall_mem_cons.mpr ⟨hkey, h.keys⟩⟩

/-- A template waits for a reference only if its name is new. -/
theorem waitFollowing (h : Tracks root ev) (hkey : key ∈ root.templateKeys [])
    (hnew : pathName key ∉ ev.history) (text : String) (left : List Fragment) :
    Tracks root (ev.waitFor key text left true) := by
  refine ⟨?_, ?_, List.forall_mem_cons.mpr ⟨hkey, h.keys⟩⟩
  · change ev.history ++ [pathName key] = namesOf (_ :: ev.stack)
    rw [namesOf, List.filter_cons_of_pos rfl, List.map_cons, List.reverse_cons, h.history, namesOf]
  · exact h.distinct.append (List.nodup_singleton _) (by simpa using hnew)

/-- What waits is gone back to with a history of the same kind. -/
theorem resume {w : Pending} {stack : List Pending} (h : Tracks root ev)
    (hstack : ev.stack = w :: stack) :
    Tracks root { ev with
      history := if w.follows then ev.history.dropLast else ev.history, stack } := by
  obtain ⟨hhistory, hdistinct, hkeys⟩ := h
  rw [hstack] at hhistory hkeys
  obtain ⟨key, text, left, follows⟩ := w
  replace hkeys := (List.forall_mem_cons.mp hkeys).2
  cases follows with
  | false => exact ⟨hhistory, hdistinct, hkeys⟩
  | true =>
    rw [namesOf, List.filter_cons_of_pos rfl, List.map_cons, List.reverse_cons] at hhistory
    refine ⟨?_, hdistinct.sublist (List.dropLast_sublist _), hkeys⟩
    simp only [if_true, hhistory, List.dropLast_concat, namesOf]

/-- Every name on the history is that of a template of the tree. -/
theorem exists_of_mem {name : String} (h : Tracks root ev) (hname : name ∈ ev.history) :
    ∃ p ∈ root.templateKeys [], pathName p = name := by
  rw [h.history, namesOf, List.mem_reverse] at hname
  obtain ⟨w, hw, rfl⟩ := List.mem_map.mp hname
  exact ⟨w.key, h.keys w (List.mem_of_mem_filter hw), rfl⟩

/-- The history is no longer than the tree has templates. -/
theorem length_le (h : Tracks root ev) : ev.history.length ≤ (root.templateKeys []).length :=
  length_le_of_distinct_names h.distinct fun _ => h.exists_of_mem

end Tracks

/-! ### One step, and all of them -/

/-- The templates that are still to come in a section are templates of the tree. -/
def Ahead (root : Section) (level : Level) : Prop :=
  ∀ p ∈ templateKeysOfEntries level.path level.left, p ∈ root.templateKeys []

/-- What holds at every moment: the history is in order, and what is evaluated, now or later, is a
template of the tree. -/
def Sound (root : Section) : Moment → Prop
  | .walking outer level => Ahead root level ∧ ∀ place ∈ outer, Ahead root place.level
  | .joining ev key _ _ => Tracks root ev ∧ key ∈ root.templateKeys [] ∧
      ∀ place ∈ ev.place :: ev.outer, Ahead root place.level
  | .leaving ev _ => Tracks root ev ∧ ∀ place ∈ ev.place :: ev.outer, Ahead root place.level
  | .done _ => True

/-- The first moment of an evaluation is sound. -/
theorem sound_start (root : Section) : Sound root (.start root) := by
  refine ⟨fun p hp => ?_, List.forall_mem_nil _⟩
  rwa [templateKeys_eq]

/-- Going on behind a fragment is sound. -/
theorem sound_proceed {result : Except ReferenceError String} (h : Tracks root ev)
    (hkey : key ∈ root.templateKeys [])
    (hahead : ∀ place ∈ ev.place :: ev.outer, Ahead root place.level) :
    Sound root (.proceed ev key text left result) := by
  cases result with
  | ok s => exact ⟨h, hkey, hahead⟩
  | error e => exact ⟨h, hahead⟩

/-- Following a reference is sound: its name is new on the history, or the evaluation fails with a
cycle. -/
theorem sound_follow (h : Tracks root ev) (hkey : key ∈ root.templateKeys [])
    (hahead : ∀ place ∈ ev.place :: ev.outer, Ahead root place.level) (text : String)
    (left : List Fragment) (ref : Reference) :
    Sound root (.follow root ev key text left ref) := by
  rw [Moment.follow]
  split
  · exact ⟨h, hahead⟩
  · rename_i hcontains
    -- the evaluation goes on only if the name is not on the history, which keeps the names distinct
    have hnew : pathName key ∉ ev.history := fun hmem =>
      hcontains (List.contains_iff_mem.mpr hmem)
    have hwaits := h.waitFollowing hkey hnew text left
    dsimp only
    split
    · exact ⟨hwaits, hahead⟩
    · exact ⟨hwaits, hahead⟩
    · exact ⟨hwaits, hahead⟩
    · rename_i t hlookup
      exact ⟨hwaits, mem_templateKeys hlookup, hahead⟩

/-- Going back to what waits is sound. -/
theorem sound_resume {result : Except ReferenceError String} (h : Tracks root ev)
    (hahead : ∀ place ∈ ev.place :: ev.outer, Ahead root place.level) :
    Sound root (.resume ev result) := by
  unfold Moment.resume
  split
  · rename_i w stack hstack
    refine sound_proceed (h.resume hstack) (h.keys w ?_) hahead
    rw [hstack]
    exact List.mem_cons_self
  · cases result with
    | ok s => exact List.forall_mem_cons.mp hahead
    | error e => trivial

/-- A step from a sound moment leads to a sound one. -/
theorem Sound.step (h : Sound root m) : Sound root (m.step root) := by
  cases m with
  | done result => trivial
  | leaving ev result => exact sound_resume h.1 h.2
  | joining ev key text left =>
    obtain ⟨htracks, hkey, hahead⟩ := h
    cases left with
    | nil => exact ⟨htracks, hahead⟩
    | cons fragment left =>
      cases fragment with
      | literal s => exact ⟨htracks, hkey, hahead⟩
      | nested fragments => exact ⟨htracks.waitNested hkey text left, hkey, hahead⟩
      | reference ref => exact sound_follow htracks hkey hahead text left ref
  | walking outer level =>
    obtain ⟨path, name, before, left⟩ := level
    obtain ⟨hlevel, houter⟩ := h
    cases left with
    | nil =>
      cases outer with
      | nil => trivial
      | cons place outer => exact List.forall_mem_cons.mp houter
    | cons entry left =>
      obtain ⟨key, value, attrs⟩ := entry
      -- the templates of this entry come before those that are left
      obtain ⟨hvalue, hleft⟩ := List.forall_mem_append.mp hlevel
      cases value with
      | scalar v =>
        cases v with
        | text s => exact ⟨hleft, houter⟩
        | template t =>
          exact ⟨.fresh root _ outer, hvalue _ (List.mem_singleton_self _),
            List.forall_mem_cons.mpr ⟨hleft, houter⟩⟩
      | subsection s =>
        rw [templateKeysOfValue, templateKeys_eq] at hvalue
        exact ⟨hvalue, List.forall_mem_cons.mpr ⟨hleft, houter⟩⟩

/-- All moments that follow a sound one are sound. -/
theorem Sound.iterate (h : Sound root m) (n : Nat) : Sound root ((Moment.step root)^[n] m) := by
  induction n generalizing m with
  | zero => exact h
  | succ n ih => exact ih h.step

/-! ## The machine evaluates -/

/-- Some number of steps leads from one moment to the other. -/
def Leads (root : Section) (m m' : Moment) : Prop :=
  ∃ n, (Moment.step root)^[n] m = m'

namespace Leads

/-- Every moment leads to itself. -/
theorem refl (m : Moment) : Leads root m m :=
  ⟨0, rfl⟩

/-- What the next moment leads to, this one leads to. -/
theorem step (h : Leads root (m.step root) m') : Leads root m m' := by
  obtain ⟨n, hn⟩ := h
  exact ⟨n + 1, hn⟩

/-- A moment leads to what any moment that it leads to leads to. -/
theorem trans (h : Leads root m m') (h' : Leads root m' m'') : Leads root m m'' := by
  obtain ⟨n, rfl⟩ := h
  obtain ⟨n', rfl⟩ := h'
  exact ⟨n' + n, Function.iterate_add_apply _ n' n m⟩

end Leads

/-- What waits goes on as soon as what it has waited for is left. -/
theorem leads_back (ev : Evaluator) (key : List String) (text : String) (left : List Fragment)
    (follows : Bool) (result : Except ReferenceError String) :
    Leads root (.leaving (ev.waitFor key text left follows) result)
      (.proceed ev key text left result) := by
  refine .step ?_
  rw [Moment.step, resume_waitFor]
  exact .refl _

/-- References in the value of `key` that are followed with the given history come back with the
text that they have up to the bound, and with the same history. -/
def Returns (root : Section) (n : Nat) (history key : List String) : Prop :=
  ∀ ev text left ref, ev.history = history → Tracks root ev →
    Leads root (.follow root ev key text left ref)
      (.proceed ev key text left (root.referenceText n history key ref))

/-- Nothing is appended to the text in front of a template at its start. -/
theorem map_empty_append {ε : Type} (x : Except ε String) : x.map ("" ++ ·) = x := by
  cases x with
  | error e => rfl
  | ok s => exact congrArg Except.ok String.empty_append

mutual

/-- The machine finds the text of a fragment. -/
theorem leads_fragment (hreturns : Returns root n chain key) (hkey : key ∈ root.templateKeys []) :
    ∀ (fragment : Fragment) (ev : Evaluator) (text : String) (left : List Fragment),
      ev.history = chain → Tracks root ev →
      Leads root (.joining ev key text (fragment :: left))
        (.proceed ev key text left
          (Piece.joinTexts (root.referenceText n chain key) fragment.pieces))
  | .literal s, ev, text, left, _, _ => by
    rw [Fragment.pieces, Piece.joinTexts_singleton]
    exact .step (.refl _)
  | .reference ref, ev, text, left, hhistory, htracks => by
    rw [Fragment.pieces, Piece.joinTexts_singleton]
    exact .step (hreturns ev text left ref hhistory htracks)
  | .nested fragments, ev, text, left, hhistory, htracks => by
    have hinner := leads_fragments hreturns hkey fragments (ev.waitFor key text left false) ""
      hhistory (htracks.waitNested hkey text left)
    rw [map_empty_append] at hinner
    rw [Fragment.pieces]
    exact .step (hinner.trans (leads_back ev key text left false _))

/-- The machine joins the texts of some fragments. -/
theorem leads_fragments (hreturns : Returns root n chain key) (hkey : key ∈ root.templateKeys []) :
    ∀ (fragments : List Fragment) (ev : Evaluator) (text : String),
      ev.history = chain → Tracks root ev →
      Leads root (.joining ev key text fragments)
        (.leaving ev ((Piece.joinTexts (root.referenceText n chain key)
          (Fragment.piecesList fragments)).map (text ++ ·)))
  | [], ev, text, _, _ => by
    refine .step ?_
    rw [Fragment.piecesList, show Piece.joinTexts _ [] = .ok "" from rfl, Except.map,
      String.append_empty]
    exact .refl _
  | fragment :: fragments, ev, text, hhistory, htracks => by
    refine (leads_fragment hreturns hkey fragment ev text fragments hhistory htracks).trans ?_
    rw [Fragment.piecesList, Piece.joinTexts_append]
    -- a failed fragment ends the template; otherwise the text goes on with the others
    cases Piece.joinTexts (root.referenceText n chain key) fragment.pieces with
    | error e => exact .refl _
    | ok s =>
      have hrest := leads_fragments hreturns hkey fragments ev (text ++ s) hhistory htracks
      generalize Piece.joinTexts (root.referenceText n chain key)
        (Fragment.piecesList fragments) = rest at hrest
      cases rest with
      | error e => exact hrest
      | ok x =>
        rw [Except.map, String.append_assoc] at hrest
        exact hrest

end

/-- The induction is on the bound. If it were zero, there would be more names in the history than
templates in the tree. -/
theorem returns (hkey : key ∈ root.templateKeys [])
    (hbound : (root.templateKeys []).length < n + chain.length) : Returns root n chain key := by
  induction n generalizing key chain with
  | zero =>
    rintro ev text left ref rfl htracks
    -- without fuel the history would be longer than there are templates
    have hlength := htracks.length_le
    omega
  | succ n ih =>
    rintro ev text left ref rfl htracks
    simp only [Moment.follow, referenceText]
    by_cases hcontains : ev.history.contains (pathName key) = true
    · rw [if_pos hcontains, if_pos hcontains]
      exact .refl _
    rw [if_neg hcontains, if_neg hcontains]
    have hnew : pathName key ∉ ev.history := fun hmem =>
      hcontains (List.contains_iff_mem.mpr hmem)
    -- whatever the reference leads to, the name of this key is on the history until it is left
    have hback : ∀ result, Leads root _ _ := leads_back ev key text left true
    cases hlookup : root.lookup? (ref.resolve key) with
    | none => exact hback _
    | some value =>
      cases value with
      | subsection s => exact hback _
      | scalar v =>
        cases v with
        | text s => exact hback _
        | template t =>
          have htarget : ref.resolve key ∈ root.templateKeys [] := mem_templateKeys hlookup
          have hinner : Returns root n (ev.history ++ [pathName key]) (ref.resolve key) := by
            -- the history has grown by one name and the fuel has shrunk by one
            refine ih htarget ?_
            rw [List.length_append, List.length_singleton]
            omega
          have hjoins := leads_fragments hinner htarget t.fragments
            (ev.waitFor key text left true) "" rfl (htracks.waitFollowing hkey hnew text left)
          rw [map_empty_append] at hjoins
          exact hjoins.trans (hback _)

/-! ### The walk through the tree -/

/-- The machine finds the text of a template of the tree. -/
theorem leads_templateText (place : Place) (outer : List Place) (t : Template)
    (hkey : key ∈ root.templateKeys []) :
    Leads root (.joining { place, outer } key "" t.fragments)
      (.resume { place, outer } (root.templateText key t)) := by
  have hreturns : Returns root ((root.templateKeys []).length + 1) [] key :=
    returns hkey (by simp)
  have hjoins := leads_fragments hreturns hkey t.fragments { place, outer } "" rfl
    (.fresh root place outer)
  rw [map_empty_append] at hjoins
  exact hjoins.trans (.step (.refl _))

/-- Going on with a mapped result is going on with the result. -/
theorem andThen_map {α β : Type} (next : β → Moment) (f : α → β) (x : Except ReferenceError α) :
    Moment.andThen next (x.map f) = .andThen (fun a => next (f a)) x := by
  cases x <;> rfl

mutual

/-- The machine walks through a section. -/
theorem leads_section : ∀ (s : Section) (path : List String) (outer : List Place),
    (∀ p ∈ templateKeys path s, p ∈ root.templateKeys []) →
    Leads root (.walking outer ⟨path, s.name, [], s.entries.toList⟩)
      (.andThen (.close outer) (evaluateIn root path s))
  | ⟨name, ⟨entries⟩⟩, path, outer, hkeys => by
    rw [templateKeys] at hkeys
    refine (leads_entries entries path name [] outer hkeys).trans ?_
    rw [evaluateIn, andThen_map]
    cases evaluateEntries root path entries with
    | error e => exact .refl _
    | ok entries' => exact .step (.refl _)

/-- The machine walks through some entries. -/
theorem leads_entries : ∀ (entries : List (String × Entry)) (path : List String)
    (name : Option String) (before : List (String × Entry)) (outer : List Place),
    (∀ p ∈ templateKeysOfEntries path entries, p ∈ root.templateKeys []) →
    Leads root (.walking outer ⟨path, name, before, entries⟩)
      (.andThen (fun entries' => .walking outer ⟨path, name, before ++ entries', []⟩)
        (evaluateEntries root path entries))
  | [], path, name, before, outer, _ => by
    rw [evaluateEntries, Moment.andThen, List.append_nil]
    exact .refl _
  | (key, ⟨value, attrs⟩) :: entries, path, name, before, outer, hkeys => by
    obtain ⟨hvalue, hentries⟩ := List.forall_mem_append.mp hkeys
    -- the first value, and then the entries behind it with this one filled in
    refine (leads_value value ⟨path, name, before, entries⟩ key attrs outer hvalue).trans ?_
    rw [evaluateEntries]
    cases evaluateValue root (path ++ [key]) value with
    | error e => exact .refl _
    | ok value' =>
      refine (leads_entries entries path name (before ++ [(key, ⟨value', attrs⟩)]) outer
        hentries).trans ?_
      cases evaluateEntries root path entries with
      | error e => exact .refl _
      | ok entries' =>
        rw [Moment.andThen, List.append_assoc]
        exact .refl _

/-- The machine evaluates the value of an entry. -/
theorem leads_value : ∀ (value : Value) (level : Level) (key : String) (attrs : KeyAttrs)
    (outer : List Place),
    (∀ p ∈ templateKeysOfValue (level.path ++ [key]) value, p ∈ root.templateKeys []) →
    Leads root (.walking outer { level with left := (key, ⟨value, attrs⟩) :: level.left })
      (.andThen (fun value' => .walking outer (Place.filled ⟨level, key, attrs⟩ value'))
        (evaluateValue root (level.path ++ [key]) value))
  | .scalar (.text s), level, key, attrs, outer, _ => .step (.refl _)
  | .scalar (.template t), level, key, attrs, outer, hkeys => by
    have hkey := hkeys _ (List.mem_singleton_self _)
    rw [evaluateValue, andThen_map]
    exact .step (leads_templateText ⟨level, key, attrs⟩ outer t hkey)
  | .subsection s, level, key, attrs, outer, hkeys => by
    rw [evaluateValue, andThen_map]
    exact .step (leads_section s (level.path ++ [key]) (⟨level, key, attrs⟩ :: outer) hkeys)

end

/-! ## Evaluation ends -/

/-- What is true of the history at a moment of an evaluation. -/
structure Moment.Remembers (root : Section) (m : Moment) : Prop where
  /-- While a reference is followed, none is followed from a key of the same name. -/
  distinct : m.history.Nodup
  templates : ∀ name ∈ m.history, ∃ p ∈ root.templateKeys [], pathName p = name
  bounded : m.history.length ≤ (root.templateKeys []).length
  /-- Its names are those of the keys that wait for a reference, and no others. -/
  pending : m.history = namesOf m.stack
  /-- A reference that is followed comes back, with its text or with an error, and everything around
  it is as it was. -/
  returns : ∀ {ev key text ref left}, m = .joining ev key text (.reference ref :: left) →
    ∃ n, (Moment.step root)^[n + 1] m = .proceed ev key text left
      (root.referenceText ((root.templateKeys []).length + 1) ev.history key ref)

/-- A sound moment remembers the keys that are being followed. -/
theorem remembers_of_sound (h : Sound root m) : m.Remembers root := by
  cases m with
  | walking outer level => exact ⟨List.nodup_nil, List.forall_mem_nil _, Nat.zero_le _, rfl, nofun⟩
  | done result => exact ⟨List.nodup_nil, List.forall_mem_nil _, Nat.zero_le _, rfl, nofun⟩
  | leaving ev result =>
    have htracks := h.1
    exact ⟨htracks.distinct, fun _ => htracks.exists_of_mem, htracks.length_le, htracks.history,
      nofun⟩
  | joining ev key text left =>
    obtain ⟨htracks, hkey, -⟩ := h
    refine ⟨htracks.distinct, fun _ => htracks.exists_of_mem, htracks.length_le, htracks.history,
      ?_⟩
    rintro ev key text ref left ⟨⟩
    exact returns hkey (by omega) ev text left ref rfl htracks

/-- Whatever references lead to, the evaluation of a tree comes to an end, and the history is in
order at every moment on the way. -/
theorem evaluateAll_terminates (root : Section) :
    (∃ n, (Moment.step root)^[n] (.start root) = .done root.evaluateAll) ∧
    ∀ n, ((Moment.step root)^[n] (.start root)).Remembers root := by
  constructor
  · have hwalk : Leads root (.start root) (.andThen (.close []) root.evaluateAll) :=
      leads_section root [] [] fun _ h => h
    refine hwalk.trans ?_
    cases root.evaluateAll <;> exact .refl _
  · intro n
    exact remembers_of_sound ((sound_start root).iterate n)

/-- From `a` references lead into a cycle, which is noticed at its first key. -/
example : ((Moment.step looping)^[9] (.start looping)).history = ["a", "b:c", "b:d"] := by
  decide

end Evaluator

end LayeredConfig
