import LayeredConfig.Proofs.Section.Texts
import LayeredConfig.Proofs.Template.SourceForm

/-!
# Source forms of captured templates

What an immediate value leaves to be evaluated later is put together of the texts and the templates
of several keys. Its source form is put together in the same way, with each literal escaped on its
own. It is read back as a template with the same meaning, unless a parenthesis at the end of one
literal meets what follows it: a reference, which is not read as one then, or a literal that starts
with an exclamation mark, which makes up `(!` with it. `Seamless` rules this out.

The proof compares a template with its `flat` one, in which captured templates are opened and
literals that meet are joined: its fragments are normal (`normal_flat`), so that its source form is
read back.
-/

namespace LayeredConfig

/-! ## Escaping in parts -/

/-- Two texts can be escaped apart if no `(!` arises where they meet. -/
theorem Fragment.escape_append {cs ds : List Char}
    (h : cs.getLast? = some '(' → ds.head? ≠ some '!') :
    escape (cs ++ ds) = escape cs ++ escape ds := by
  fun_induction escape cs with
  | case1 cs ih =>
    have hcs : cs.getLast? = some '(' → ds.head? ≠ some '!' := by
      intro hlast
      exact h (by rw [List.getLast?_cons, List.getLast?_cons, hlast]; rfl)
    rw [List.cons_append, List.cons_append, escape, ih hcs]
    rfl
  | case2 c cs hopening ih =>
    have hcs : cs.getLast? = some '(' → ds.head? ≠ some '!' := by
      intro hlast
      exact h (by rw [List.getLast?_cons, hlast]; rfl)
    rw [List.cons_append, escape, ih hcs]
    · rfl
    · -- what follows `c` is the rest of its own text, or `c` is where the two texts meet
      rintro rest rfl hrest
      cases cs with
      | nil => exact h rfl (by rw [← List.nil_append ds, hrest]; rfl)
      | cons c' cs =>
        obtain ⟨rfl, -⟩ := List.cons.inj hrest
        exact hopening cs rfl rfl
  | case3 => rfl

/-! ## Pieces as fragments -/

namespace Fragment

/-- Puts a literal in front of some fragments, as part of the literal there if they start with one.
-/
def consLiteral (text : String) : List Fragment → List Fragment
  | .literal text' :: fragments => .literal (text ++ text') :: fragments
  | fragments => .literal text :: fragments

/-- A fragment can stand behind a literal: a parenthesis at the end of the literal takes no part in
it. -/
def MayFollow (text : String) : Fragment → Prop
  | .literal text' => text.toList.getLast? = some '(' → text'.toList.head? ≠ some '!'
  | .reference _ => text.toList.getLast? ≠ some '('
  | .nested _ => True

instance (text : String) : DecidablePred (MayFollow text)
  | .literal text' =>
    inferInstanceAs (Decidable (text.toList.getLast? = some '(' → text'.toList.head? ≠ some '!'))
  | .reference _ => inferInstanceAs (Decidable (text.toList.getLast? ≠ some '('))
  | .nested _ => inferInstanceAs (Decidable True)

end Fragment

namespace Piece

/-- The fragment that a piece is. -/
def toFragment : Piece → Fragment
  | .literal text => .literal text
  | .reference ref => .reference ref

/-- The source forms of some pieces, one after the other. -/
def source (pieces : List Piece) : List Char :=
  Fragment.sourceList (pieces.map toFragment)

/-- The fragments that some pieces make up, with literals that meet joined. -/
def join : List Piece → List Fragment
  | [] => []
  | .literal text :: pieces => Fragment.consLiteral text (join pieces)
  | .reference ref :: pieces => .reference ref :: join pieces

/-- The pieces without empty literals. -/
def nonempty (pieces : List Piece) : List Piece :=
  pieces.filter (· ≠ .literal "")

/-- A piece can stand in front of another one. -/
def MayPrecede : Piece → Piece → Prop
  | .literal text, next => Fragment.MayFollow text next.toFragment
  | .reference _, _ => True

instance : DecidableRel MayPrecede
  | .literal text, next => inferInstanceAs (Decidable (Fragment.MayFollow text next.toFragment))
  | .reference _, _ => inferInstanceAs (Decidable True)

end Piece

namespace Template

/-- The template with captured templates opened and literals that meet joined. -/
def flat (t : Template) : Template :=
  ⟨Piece.join (Piece.nonempty t.pieces)⟩

/-- Each piece of a template can stand in front of the next one that is not empty. -/
def Seamless (t : Template) : Prop :=
  (Piece.nonempty t.pieces).IsChain Piece.MayPrecede

instance : DecidablePred Seamless := fun t =>
  inferInstanceAs (Decidable ((Piece.nonempty t.pieces).IsChain Piece.MayPrecede))

end Template

/-! ## Joining a literal -/

namespace Fragment

variable {ε : Type} {text : String} {fragments : List Fragment}

/-- Putting a literal in front adds its text, whether it is joined to another literal or not. -/
theorem joinTexts_consLiteral (resolve : Reference → Except ε String) (text : String)
    (fragments : List Fragment) :
    Piece.joinTexts resolve (piecesList (consLiteral text fragments)) =
      Piece.joinTexts resolve (.literal text :: piecesList fragments) := by
  unfold consLiteral
  split
  · rename_i text' others
    rw [piecesList, piecesList, pieces, pieces, List.singleton_append, List.singleton_append]
    simp only [Piece.joinTexts_cons, Piece.text]
    cases Piece.joinTexts resolve (piecesList others) with
    | error e => rfl
    | ok y => exact congrArg Except.ok String.append_assoc
  · rfl

/-- Fragments with a literal put in front start with a literal whose text starts with it. -/
theorem exists_consLiteral_eq (text : String) (fragments : List Fragment) :
    ∃ text' others, consLiteral text fragments = .literal (text ++ text') :: others := by
  unfold consLiteral
  split
  · exact ⟨_, _, rfl⟩
  · exact ⟨"", _, by rw [String.append_empty]⟩

/-- The source form of a literal put in front is its own followed by that of the fragments, provided
they can stand behind it. -/
theorem sourceList_consLiteral (h : ∀ next ∈ fragments.head?, MayFollow text next) :
    sourceList (consLiteral text fragments) = escape text.toList ++ sourceList fragments := by
  unfold consLiteral
  split
  · rename_i text' others
    rw [sourceList, sourceList, source, source, String.toList_append, escape_append (h _ rfl),
      List.append_assoc]
  · rfl

/-- Normal fragments stay normal with a literal that is not empty in front, provided they can stand
behind it. -/
theorem normal_consLiteral (htext : text ≠ "") (hfragments : Template.Normal fragments)
    (h : ∀ next ∈ fragments.head?, MayFollow text next) :
    Template.Normal (consLiteral text fragments) := by
  unfold consLiteral
  split
  · rename_i text' others
    obtain ⟨hplain, hothers⟩ := List.forall_mem_cons.mp hfragments.plain
    obtain ⟨hadjacent, hchain⟩ := List.isChain_cons.mp hfragments.adjacent
    refine ⟨List.forall_mem_cons.mpr ⟨?_, hothers⟩, List.isChain_cons.mpr ⟨?_, hchain⟩⟩
    · exact fun hempty => htext (String.append_eq_empty_iff.mp hempty).1
    · -- the joined literal ends as its second part does
      have hlast : (text ++ text').toList.getLast? = text'.toList.getLast? := by
        rw [String.toList_append, List.getLast?_append_of_ne_nil]
        exact mt String.toList_eq_nil_iff.mp hplain
      intro next hnext
      have hnext' := hadjacent next hnext
      cases next with
      | literal text'' => exact hnext'
      | reference ref => rwa [MayPrecede, hlast]
      | nested inner => trivial
  · rename_i hliteral
    refine ⟨List.forall_mem_cons.mpr ⟨htext, hfragments.plain⟩,
      List.isChain_cons.mpr ⟨?_, hfragments.adjacent⟩⟩
    intro next hnext
    cases next with
    | literal text' =>
      obtain ⟨others, rfl⟩ := List.head?_eq_some_iff.mp hnext
      exact hliteral text' others rfl
    | reference ref => exact h _ hnext
    | nested inner => trivial

end Fragment

/-! ## Joining pieces -/

namespace Fragment

/-- Source forms are appended. -/
theorem sourceList_append (before after : List Fragment) :
    sourceList (before ++ after) = sourceList before ++ sourceList after := by
  induction before with
  | nil => rfl
  | cons fragment before ih =>
    rw [List.cons_append, sourceList, sourceList, ih, List.append_assoc]

mutual

/-- A fragment is written as its pieces are. -/
theorem source_pieces : ∀ fragment : Fragment, Piece.source fragment.pieces = fragment.source
  | .literal _ => List.append_nil _
  | .reference _ => List.append_nil _
  | .nested fragments => source_piecesList fragments

/-- Fragments are written as their pieces are. -/
theorem source_piecesList :
    ∀ fragments : List Fragment, Piece.source (piecesList fragments) = sourceList fragments
  | [] => rfl
  | fragment :: fragments => by
    rw [piecesList, Piece.source, List.map_append, sourceList_append, sourceList,
      ← source_pieces fragment, ← source_piecesList fragments]
    rfl

end

end Fragment

namespace Piece

variable {ε : Type} {text : String} {pieces : List Piece}

/-- The source form of some pieces starts with that of the first one. -/
theorem source_cons (piece : Piece) (pieces : List Piece) :
    source (piece :: pieces) = piece.toFragment.source ++ source pieces :=
  rfl

/-- Joining the literals that meet leaves the text as it is. -/
theorem joinTexts_join (resolve : Reference → Except ε String) (pieces : List Piece) :
    joinTexts resolve (Fragment.piecesList (join pieces)) = joinTexts resolve pieces := by
  induction pieces with
  | nil => rfl
  | cons piece pieces ih =>
    cases piece with
    | literal text => rw [join, Fragment.joinTexts_consLiteral, joinTexts_cons, joinTexts_cons, ih]
    | reference ref =>
      rw [join, Fragment.piecesList, Fragment.pieces, List.singleton_append, joinTexts_cons,
        joinTexts_cons, ih]

/-- So does leaving out the empty ones. -/
theorem joinTexts_nonempty (resolve : Reference → Except ε String) (pieces : List Piece) :
    joinTexts resolve (nonempty pieces) = joinTexts resolve pieces := by
  induction pieces with
  | nil => rfl
  | cons piece pieces ih =>
    rw [nonempty] at ih ⊢
    by_cases hempty : piece = .literal ""
    · subst hempty
      rw [List.filter_cons_of_neg (by simp), joinTexts_cons, ih]
      cases joinTexts resolve pieces with
      | error e => rfl
      | ok y => exact congrArg Except.ok String.empty_append.symm
    · rw [List.filter_cons_of_pos (by simpa using hempty), joinTexts_cons, joinTexts_cons, ih]

/-- An empty literal does not show in the source form. -/
theorem source_nonempty (pieces : List Piece) : source (nonempty pieces) = source pieces := by
  induction pieces with
  | nil => rfl
  | cons piece pieces ih =>
    rw [nonempty] at ih ⊢
    by_cases hempty : piece = .literal ""
    · subst hempty
      rw [List.filter_cons_of_neg (by simp), ih]
      rfl
    · rw [List.filter_cons_of_pos (by simpa using hempty), source_cons, source_cons, ih]

/-- What some pieces are joined to starts as they do. -/
theorem mayFollow_join (hpieces : .literal "" ∉ pieces)
    (h : ∀ next ∈ pieces.head?, Fragment.MayFollow text next.toFragment) :
    ∀ next ∈ (join pieces).head?, Fragment.MayFollow text next := by
  cases pieces with
  | nil => nofun
  | cons piece pieces =>
    cases piece with
    | reference ref =>
      rintro _ ⟨⟩
      exact h _ rfl
    | literal text' =>
      have hne : text'.toList ≠ [] := by
        intro hnil
        obtain rfl := String.toList_eq_nil_iff.mp hnil
        exact hpieces List.mem_cons_self
      -- the joined literal starts as its first part does, which is not empty
      obtain ⟨text'', others, hjoin⟩ := Fragment.exists_consLiteral_eq text' (join pieces)
      rw [join, hjoin]
      rintro _ ⟨⟩ hparen
      rw [String.toList_append, List.head?_append_of_ne_nil _ hne]
      exact h _ rfl hparen

/-- Pieces that can stand in front of each other are joined to normal fragments, and these are
written as they are. -/
theorem join_spec (hpieces : .literal "" ∉ pieces)
    (hrefs : ∀ ref, .reference ref ∈ pieces → ref.IsPlain) (h : pieces.IsChain MayPrecede) :
    Template.Normal (join pieces) ∧ Fragment.sourceList (join pieces) = source pieces := by
  induction pieces with
  | nil => exact ⟨⟨List.forall_mem_nil _, .nil⟩, rfl⟩
  | cons piece pieces ih =>
    obtain ⟨hnext, hchain⟩ := List.isChain_cons.mp h
    have hnonempty : .literal "" ∉ pieces := fun hmem => hpieces (List.mem_cons_of_mem _ hmem)
    obtain ⟨hnormal, hsource⟩ :=
      ih hnonempty (fun ref hmem => hrefs ref (List.mem_cons_of_mem _ hmem)) hchain
    cases piece with
    | reference ref =>
      refine ⟨hnormal.cons_reference (hrefs ref List.mem_cons_self), ?_⟩
      rw [join, Fragment.sourceList, hsource]
      rfl
    | literal text =>
      -- `MayPrecede` is about the next piece, and the rest is joined to what starts as this does
      have hfollow := mayFollow_join hnonempty hnext
      have htext : text ≠ "" := by
        rintro rfl
        exact hpieces List.mem_cons_self
      refine ⟨Fragment.normal_consLiteral htext hnormal hfollow, ?_⟩
      rw [join, Fragment.sourceList_consLiteral hfollow, hsource]
      rfl

end Piece

/-! ## The flat template -/

namespace Template

variable {t : Template}

/-- The flat template of a seamless one is normal, and has the same source form. -/
theorem flat_spec (hrefs : ∀ ref, .reference ref ∈ t.pieces → ref.IsPlain) (h : t.Seamless) :
    Normal t.flat.fragments ∧ t.flat.render = t.render := by
  have hempty : .literal "" ∉ Piece.nonempty t.pieces := by
    simp [Piece.nonempty]
  obtain ⟨hnormal, hsource⟩ :=
    Piece.join_spec hempty (fun ref hmem => hrefs ref (List.mem_of_mem_filter hmem)) h
  refine ⟨hnormal, ?_⟩
  rw [render, flat, hsource, Piece.source_nonempty, pieces, Fragment.source_piecesList, render]

end Template

/-! ## Texts -/

section texts

variable {ε : Type} {fragments : List Fragment}

/-- A flat template has the text of the template. -/
theorem Template.joinTexts_flat (resolve : Reference → Except ε String) (t : Template) :
    Piece.joinTexts resolve t.flat.pieces = Piece.joinTexts resolve t.pieces :=
  (Piece.joinTexts_join resolve _).trans (Piece.joinTexts_nonempty resolve _)

/-- Literals are joined without resolving any reference. -/
theorem Fragment.joinTexts_literals (resolve : Reference → Except ε String) {texts : List String}
    (h : fragments.mapM literal? = some texts) :
    Piece.joinTexts resolve (piecesList fragments) = .ok (String.join texts) := by
  induction fragments generalizing texts with
  | nil =>
    cases h
    rfl
  | cons fragment fragments ih =>
    rw [List.mapM_cons] at h
    obtain ⟨text, htext, h⟩ := Option.bind_eq_some_iff.mp h
    obtain ⟨others, hothers, h⟩ := Option.bind_eq_some_iff.mp h
    cases h
    cases fragment with
    | reference ref => cases htext
    | nested inner => cases htext
    | literal s =>
      cases htext
      rw [piecesList, pieces, List.singleton_append, Piece.joinTexts_cons, ih hothers,
        String.join_cons]
      rfl

/-- Collapsing a template leaves its text as it is. -/
theorem Template.joinTexts_collapse (resolve : Reference → Except ε String) (t : Template) :
    Piece.joinTexts resolve t.collapse.pieces = Piece.joinTexts resolve t.pieces := by
  rw [collapse]
  split
  · rename_i texts htexts
    rw [Scalar.pieces, Piece.joinTexts_singleton, pieces,
      Fragment.joinTexts_literals resolve htexts]
    rfl
  · rfl

/-- A scalar evaluates to the text of its pieces. -/
theorem Section.evaluateValue_scalar (root : Section) (p : List String) (v : Scalar) :
    root.evaluateValue p (.scalar v) =
      (Piece.joinTexts (root.referenceText ((root.templateKeys []).length + 1) [] p) v.pieces).map
        (.scalar <| .text ·) := by
  cases v with
  | text s =>
    rw [Scalar.pieces, Piece.joinTexts_singleton]
    rfl
  | template t => rfl

end texts

/-! ## What is captured -/

/-- The references of a scalar can be written. -/
def Scalar.IsPlain (v : Scalar) : Prop :=
  ∀ ref, .reference ref ∈ v.pieces → ref.IsPlain

/-- The references in a tree can be written. -/
def Section.PlainReferences (root : Section) : Prop :=
  ∀ p v, root.lookup? p = some (.scalar v) → v.IsPlain

/-- The references in a value can be written. -/
def Value.PlainReferences : Value → Prop
  | .scalar v => v.IsPlain
  | .subsection s => s.PlainReferences

/-- The references in a tree can be written if those in each of its values can. -/
theorem Section.plainReferences_iff {s : Section} :
    s.PlainReferences ↔ ∀ k e, s.entries.get? k = some e → e.value.PlainReferences := by
  constructor
  · rintro h k ⟨value, attrs⟩ hget
    cases value with
    | scalar v => exact h [k] v (by rw [lookup?_singleton, hget]; rfl)
    | subsection sub =>
      intro p v hv
      have hp : p ≠ [] := by
        rintro rfl
        cases hv
      exact h (k :: p) v (by rw [lookup?_cons s k hp, subsection?_of_get? hget]; exact hv)
  · -- along the path: the first name is that of the scalar, or of the section in which it is
    intro h p v hv
    cases p with
    | nil => cases hv
    | cons k p =>
      by_cases hp : p = []
      · rw [hp, lookup?_singleton] at hv
        obtain ⟨e, hget, hvalue⟩ := Option.map_eq_some_iff.mp hv
        have hplain := h k e hget
        rwa [hvalue] at hplain
      · rw [lookup?_cons s k hp] at hv
        obtain ⟨sub, hsub, hv⟩ := Option.bind_eq_some_iff.mp hv
        obtain ⟨attrs, hget⟩ := subsection?_eq_some_iff.mp hsub
        exact h k _ hget p v hv

/-- A collapsed template has no reference that the template does not have. -/
theorem Template.isPlain_collapse {t : Template}
    (h : ∀ ref, .reference ref ∈ t.pieces → ref.IsPlain) : t.collapse.IsPlain := by
  rw [collapse]
  split
  · intro ref hmem
    cases List.mem_singleton.mp hmem
  · exact h

namespace Section

variable {root : Section} {p : List String} {t c : Template} {v : Scalar}

mutual

/-- In a tree whose references can be written, the references of what a fragment captures can be
written. -/
theorem isPlain_captureFragment (hroot : root.PlainReferences) :
    ∀ (fragment : Fragment) {captured : Fragment},
      captureFragment root p fragment = .ok captured →
      ∀ ref, .reference ref ∈ captured.pieces → ref.IsPlain
  | .literal text, captured, h, ref, hmem => by
    cases h
    cases List.mem_singleton.mp hmem
  | .reference ref', captured, h, ref, hmem => by
    rw [captureFragment] at h
    split at h
    · cases h
    · cases h
    · cases h
      cases List.mem_singleton.mp hmem
    · rename_i t ht
      cases h
      -- the template that is pasted in stands in the tree
      exact hroot _ _ ht ref hmem
  | .nested fragments, captured, h, ref, hmem => by
    rw [captureFragment] at h
    obtain ⟨inner, hinner, rfl⟩ := Except.map_eq_ok_iff.mp h
    have hplain := Template.isPlain_collapse (t := ⟨inner⟩)
      (isPlain_captureFragments hroot fragments hinner)
    generalize Template.collapse ⟨inner⟩ = collapsed at hplain hmem
    cases collapsed with
    | text s => cases List.mem_singleton.mp hmem
    | template t => exact hplain ref hmem

/-- So can those of what some fragments capture. -/
theorem isPlain_captureFragments (hroot : root.PlainReferences) :
    ∀ (fragments : List Fragment) {captured : List Fragment},
      captureFragments root p fragments = .ok captured →
      ∀ ref, .reference ref ∈ Fragment.piecesList captured → ref.IsPlain
  | [], captured, h, ref, hmem => by
    cases h
    cases hmem
  | fragment :: fragments, captured, h, ref, hmem => by
    rw [captureFragments] at h
    obtain ⟨first, hfirst, h⟩ := Except.bind_eq_ok_iff.mp h
    obtain ⟨others, hothers, h⟩ := Except.bind_eq_ok_iff.mp h
    cases h
    rcases List.mem_append.mp hmem with hmem | hmem
    · exact isPlain_captureFragment hroot fragment hfirst ref hmem
    · exact isPlain_captureFragments hroot fragments hothers ref hmem

end

/-- What an immediate value captures has no references but those of the tree. -/
theorem isPlain_evaluateImmediate (hroot : root.PlainReferences)
    (h : root.evaluateImmediate p t = .ok v) : v.IsPlain := by
  obtain ⟨fragments, hfragments, rfl⟩ := Except.map_eq_ok_iff.mp h
  exact Template.isPlain_collapse (isPlain_captureFragments hroot t.fragments hfragments)

/-- What an immediate value leaves to be evaluated later may be written down, if its parts are
seamless: its source form is read, and what is read evaluates at every key of every tree as the
captured template does. The references of a tree can be written if they have been read. -/
theorem captured_source_means_template (hroot : root.PlainReferences)
    (hcapture : root.evaluateImmediate p t = .ok (.template c)) (hseams : c.Seamless) :
    ∃ v, Template.parse c.render = .ok v ∧ ∀ (tree : Section) (q : List String),
      tree.evaluateValue q (.scalar v) = tree.evaluateValue q (.scalar (.template c)) := by
  obtain ⟨hnormal, hrender⟩ := Template.flat_spec (isPlain_evaluateImmediate hroot hcapture) hseams
  refine ⟨c.flat.collapse, ?_, fun tree q => ?_⟩
  · rw [← hrender]
    exact Template.parse_render hnormal
  · rw [evaluateValue_scalar, evaluateValue_scalar, Template.joinTexts_collapse,
      Template.joinTexts_flat]
    rfl

/-- A tree with parentheses and exclamation marks in the texts and around the reference. -/
def bracketed : Section :=
  ⟨none, ⟨[
    ("o", ⟨.scalar (.text "(("), {}⟩),
    ("e", ⟨.scalar (.text ""), {}⟩),
    ("w", ⟨.scalar (.template ⟨[.literal "a(!", .reference ⟨false, ["v"]⟩, .literal "!)"]⟩), {}⟩)]⟩⟩

/-- A value for the new key `k`, which refers to all of them. -/
def bracketedValue : Template :=
  ⟨[.reference ⟨false, ["o"]⟩, .reference ⟨false, ["e"]⟩, .reference ⟨false, ["w"]⟩,
    .reference ⟨true, ["o"]⟩]⟩

/-- What that value captures. -/
def bracketedCaptured : Template :=
  ⟨[.literal "((", .literal "", .nested [.literal "a(!", .reference ⟨false, ["v"]⟩, .literal "!)"],
    .literal "(("]⟩

/-- The captured value is full of parentheses and exclamation marks, has an empty literal and a
nested template, and its source form is read back as a template with the same meaning. -/
theorem captured_source_means_template_bracketed :
    bracketed.PlainReferences ∧
      bracketed.evaluateImmediate ["k"] bracketedValue = .ok (.template bracketedCaptured) ∧
      bracketedCaptured.Seamless ∧ bracketedCaptured.render = "((a((!(!v)!)((" ∧
      ∃ v, Template.parse bracketedCaptured.render = .ok v ∧
        ∀ (tree : Section) (q : List String), tree.evaluateValue q (.scalar v) =
          tree.evaluateValue q (.scalar (.template bracketedCaptured)) := by
  have hplain : bracketed.PlainReferences := by
    refine plainReferences_iff.mpr fun k e hget => ?_
    rcases OrderedMap.mem_of_get? hget with _ | ⟨_, _ | ⟨_, _ | ⟨_, ⟨⟩⟩⟩⟩
    · nofun
    · nofun
    · intro ref hmem
      have href : ref = ⟨false, ["v"]⟩ := by
        simpa [Scalar.pieces, Template.pieces, Fragment.piecesList, Fragment.pieces] using hmem
      rw [href]
      decide
  have hcapture :
      bracketed.evaluateImmediate ["k"] bracketedValue = .ok (.template bracketedCaptured) := rfl
  have hseams : bracketedCaptured.Seamless := by decide
  exact ⟨hplain, hcapture, hseams, by decide,
    captured_source_means_template hplain hcapture hseams⟩

/-- A tree with a text that ends in a parenthesis, and one that starts with an exclamation mark. -/
def torn : Section :=
  ⟨none, ⟨[
    ("x", ⟨.scalar (.text "("), {}⟩),
    ("y", ⟨.scalar (.text "!z)"), {}⟩),
    ("w", ⟨.scalar (.template ⟨[.reference ⟨false, ["v"]⟩]⟩), {}⟩),
    ("v", ⟨.scalar (.text "V"), {}⟩),
    ("z", ⟨.scalar (.text "Z"), {}⟩)]⟩⟩

/-- A value for the new key `k`, in which the two texts meet. -/
def tornValue : Template :=
  ⟨[.reference ⟨false, ["x"]⟩, .reference ⟨false, ["y"]⟩, .reference ⟨false, ["w"]⟩]⟩

/-- What that value captures. -/
def tornCaptured : Template :=
  ⟨[.literal "(", .literal "!z)", .nested [.reference ⟨false, ["v"]⟩]]⟩

/-- What its source form is read as. -/
def tornRead : Template :=
  ⟨[.reference ⟨false, ["z"]⟩, .reference ⟨false, ["v"]⟩]⟩

/-- There is one reference more in what is read, and the text that it stands for is another one. -/
theorem torn_gains_reference :
    torn.evaluateImmediate ["k"] tornValue = .ok (.template tornCaptured) ∧
      tornCaptured.render = "(!z)(!v)" ∧
      Template.parse tornCaptured.render = .ok (.template tornRead) ∧
      torn.evaluateValue ["k"] (.scalar (.template tornRead)) = .ok (.scalar (.text "ZV")) ∧
      torn.evaluateValue ["k"] (.scalar (.template tornCaptured)) =
        .ok (.scalar (.text "(!z)V")) := by
  have hrender : tornCaptured.render = "(!z)(!v)" := by decide
  have hparse : Template.parse "(!z)(!v)" = .ok (.template tornRead) := rfl
  exact ⟨rfl, hrender, by rw [hrender, hparse], rfl, rfl⟩

end Section

end LayeredConfig
