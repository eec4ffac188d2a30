import LayeredConfig.Proofs.Section.Storing

/-!
# Immediate and deferred values

An immediate value is evaluated when it is written: its references are replaced by the texts and the
templates that they lead to at that moment. A deferred value is stored as it is. The two stand for
the same text as long as the references are `Capturable`: none of them leads to the key itself, and
each template that they lead to reads the same at its own key and at the new one. Then the two trees
differ in the value of one key only, and evaluation makes the same of both
(`evaluateAll_putAt_captured`).
-/

namespace LayeredConfig

/-- A reference is resolved relative to the section of its key, whatever the last part of the key
is. -/
theorem Reference.resolve_of_dropLast_eq {p q : List String} (h : p.dropLast = q.dropLast)
    (ref : Reference) : ref.resolve p = ref.resolve q := by
  rw [resolve, resolve, h]

/-- An absolute reference is resolved alike at every key. -/
theorem Reference.resolve_of_absolute {ref : Reference} (h : ref.absolute = true)
    (p q : List String) : ref.resolve p = ref.resolve q := by
  rw [resolve, resolve, if_pos h, if_pos h]

namespace Section

variable {root r r' : Section} {path p q : List String} {key : String} {attrs : KeyAttrs}
  {ref : Reference} {pieces : List Piece} {fragments : List Fragment} {t : Template}
  {v w : Scalar} {x : String}

/-! ## Captured references -/

/-- In the value of the key at a path, a reference stands for the same text once it is replaced by
what it leads to: it does not lead to the key itself, and a template that it leads to is in the same
section or refers to keys by their paths from the root only. -/
structure Capturable (root : Section) (p : List String) (ref : Reference) : Prop where
  elsewhere : ref.resolve p ≠ p
  portable : ∀ t, root.lookup? (ref.resolve p) = some (.scalar (.template t)) →
    (ref.resolve p).dropLast = p.dropLast ∨
      ∀ ref', .reference ref' ∈ t.pieces → ref'.absolute = true

/-- Pieces whose references lead to the same keys from two paths come to the same text at both. -/
theorem ComesTo.move (h : root.ComesTo p pieces x)
    (hresolve : ∀ ref, .reference ref ∈ pieces → ref.resolve p = ref.resolve q) :
    root.ComesTo q pieces x := by
  induction pieces generalizing x with
  | nil =>
    rw [comesTo_nil_iff.mp h]
    exact .nil
  | cons piece pieces ih =>
    have hrest : ∀ ref, .reference ref ∈ pieces → ref.resolve p = ref.resolve q :=
      fun ref hmem => hresolve ref (List.mem_cons_of_mem piece hmem)
    cases h with
    | literal rest => exact .literal (ih rest hrest)
    | @reference _ ref _ _ _ _ leads target rest =>
      rw [hresolve ref List.mem_cons_self] at leads target
      exact .reference leads target (ih rest hrest)

/-- A template that a capturable reference leads to comes to the same text at both keys. -/
theorem Capturable.comesTo_iff (h : root.Capturable p ref)
    (ht : root.lookup? (ref.resolve p) = some (.scalar (.template t))) :
    r.ComesTo (ref.resolve p) t.pieces x ↔ r.ComesTo p t.pieces x := by
  have hresolve : ∀ ref', .reference ref' ∈ t.pieces →
      ref'.resolve (ref.resolve p) = ref'.resolve p := by
    intro ref' hmem
    rcases h.portable t ht with hsection | habsolute
    · exact ref'.resolve_of_dropLast_eq hsection
    · exact Reference.resolve_of_absolute (habsolute ref' hmem) _ _
  exact ⟨fun hx => hx.move hresolve, fun hx => hx.move fun ref' hmem => (hresolve ref' hmem).symm⟩

/-- Literals come to their texts, one after the other. -/
theorem comesTo_literals_iff {texts : List String}
    (h : fragments.mapM Fragment.literal? = some texts) :
    root.ComesTo p (Fragment.piecesList fragments) x ↔ x = String.join texts := by
  induction fragments generalizing texts x with
  | nil =>
    cases h
    exact comesTo_nil_iff
  | cons fragment fragments ih =>
    rw [List.mapM_cons] at h
    obtain ⟨text, htext, h⟩ := Option.bind_eq_some_iff.mp h
    obtain ⟨rest, hrest, h⟩ := Option.bind_eq_some_iff.mp h
    cases h
    cases fragment with
    | reference ref => cases htext
    | nested fragments => cases htext
    | literal s =>
      cases htext
      rw [Fragment.piecesList, comesTo_append_iff, String.join_cons]
      constructor
      · rintro ⟨a, b, ha, hb, rfl⟩
        rw [comesTo_literal_iff.mp ha, (ih hrest).mp hb]
      · rintro rfl
        exact ⟨_, _, comesTo_literal_iff.mpr rfl, (ih hrest).mpr rfl, rfl⟩

/-- Collapsing a template does not change what it comes to. -/
theorem comesTo_collapse_iff :
    root.ComesTo p (Template.collapse { fragments }).pieces x ↔
      root.ComesTo p (Fragment.piecesList fragments) x := by
  rw [Template.collapse]
  split
  · rename_i texts htexts
    rw [comesTo_literals_iff htexts]
    exact comesTo_literal_iff
  · exact Iff.rfl

mutual

/-- A fragment comes to the same text before and after its references are captured. -/
theorem comesTo_captureFragment_iff (halike : SameScalarsBut p root r) :
    ∀ (fragment : Fragment) {captured : Fragment} {x : String},
      (∀ ref, .reference ref ∈ fragment.pieces → root.Capturable p ref) →
      captureFragment root p fragment = .ok captured →
      (r.ComesTo p fragment.pieces x ↔ r.ComesTo p captured.pieces x)
  | .literal text, captured, x, hrefs, h => by
    cases h
    exact Iff.rfl
  | .reference ref, captured, x, hrefs, h => by
    -- what the reference leads to is elsewhere, so that it is the same in the tree with the value
    -- put
    have hcapturable := hrefs ref List.mem_cons_self
    have hscalar := fun v => halike (ref.resolve p) v hcapturable.elsewhere
    rw [captureFragment] at h
    rw [Fragment.pieces, comesTo_reference_iff]
    split at h
    · cases h
    · cases h
    · next s hs =>
      cases h
      refine (standsFor_iff ((hscalar _).mp hs)).trans ?_
      exact comesTo_literal_iff.trans comesTo_literal_iff.symm
    · -- the template that is pasted in refers to what it referred to at its own key
      next t ht =>
      cases h
      exact (standsFor_iff ((hscalar _).mp ht)).trans (hcapturable.comesTo_iff ht)
  | .nested fragments, captured, x, hrefs, h => by
    rw [captureFragment] at h
    obtain ⟨inner, hinner, rfl⟩ := Except.map_eq_ok_iff.mp h
    rw [Fragment.pieces, comesTo_captureFragments_iff halike fragments hrefs hinner,
      ← comesTo_collapse_iff]
    cases Template.collapse { fragments := inner } <;> exact Iff.rfl

/-- Fragments come to the same text before and after their references are captured. -/
theorem comesTo_captureFragments_iff (halike : SameScalarsBut p root r) :
    ∀ (fragments : List Fragment) {captured : List Fragment} {x : String},
      (∀ ref, .reference ref ∈ Fragment.piecesList fragments → root.Capturable p ref) →
      captureFragments root p fragments = .ok captured →
      (r.ComesTo p (Fragment.piecesList fragments) x ↔
        r.ComesTo p (Fragment.piecesList captured) x)
  | [], captured, x, hrefs, h => by
    cases h
    exact Iff.rfl
  | fragment :: fragments, captured, x, hrefs, h => by
    rw [captureFragments] at h
    obtain ⟨first, hfirst, h⟩ := Except.bind_eq_ok_iff.mp h
    obtain ⟨rest, hrest, h⟩ := Except.bind_eq_ok_iff.mp h
    cases h
    -- each fragment for itself, the references of both halves being capturable
    have hhead : ∀ y, r.ComesTo p fragment.pieces y ↔ r.ComesTo p first.pieces y :=
      fun y => comesTo_captureFragment_iff halike fragment
        (fun ref hmem => hrefs ref (List.mem_append_left _ hmem)) hfirst
    have htail : ∀ y, r.ComesTo p (Fragment.piecesList fragments) y ↔
        r.ComesTo p (Fragment.piecesList rest) y :=
      fun y => comesTo_captureFragments_iff halike fragments
        (fun ref hmem => hrefs ref (List.mem_append_right _ hmem)) hrest
    rw [Fragment.piecesList, Fragment.piecesList, comesTo_append_iff, comesTo_append_iff]
    simp only [hhead, htail]

end

/-- A template comes to the same text before and after it is evaluated where it is written. -/
theorem comesTo_evaluateImmediate_iff (halike : SameScalarsBut p root r)
    (hrefs : ∀ ref, .reference ref ∈ t.pieces → root.Capturable p ref)
    (h : root.evaluateImmediate p t = .ok v) :
    r.ComesTo p t.pieces x ↔ r.ComesTo p v.pieces x := by
  obtain ⟨captured, hcaptured, rfl⟩ := Except.map_eq_ok_iff.mp h
  rw [comesTo_collapse_iff]
  exact comesTo_captureFragments_iff halike t.fragments hrefs hcaptured

/-! ## Two values of one key -/

/-- Where two trees differ in the value of one key only, and the one value comes to what the other
one does, everything else comes to the same, too. -/
theorem ComesTo.transfer (halike : SameScalarsBut p r r')
    (hv : r.lookup? p = some (.scalar v)) (hw : r'.lookup? p = some (.scalar w))
    (hvw : ∀ y, r'.ComesTo p v.pieces y → r'.ComesTo p w.pieces y)
    (h : r.ComesTo q pieces x) : r'.ComesTo q pieces x := by
  induction h with
  | nil => exact .nil
  | literal _ ih => exact .literal ih
  | @reference q ref u _ _ _ leads _ _ ihtarget ihrest =>
    by_cases hq : ref.resolve q = p
    · rw [hq] at leads ihtarget
      rw [hv] at leads
      cases leads
      have htarget := hvw _ ihtarget
      rw [← hq] at hw htarget
      exact .reference hw htarget ihrest
    · exact .reference ((halike _ u hq).mp leads) ihtarget ihrest

/-- What a key stands for in one tree it stands for in another one that differs from it only at one
scalar, provided the new value comes to the text of the old one. -/
theorem StandsFor.transfer (halike : SameScalarsBut p r r')
    (hv : r.lookup? p = some (.scalar v)) (hw : r'.lookup? p = some (.scalar w))
    (hvw : ∀ y, r'.ComesTo p v.pieces y → r'.ComesTo p w.pieces y)
    (h : r.StandsFor q x) : r'.StandsFor q x := by
  -- a key stands for what a reference to it comes to
  have hself : (Reference.mk true q).resolve [] = q := rfl
  rw [← hself, ← comesTo_reference_iff] at h ⊢
  exact h.transfer halike hv hw hvw

/-- Of two scalars that come to the same in every such tree, either may be stored. -/
theorem standsFor_putAt_of_comesTo (hpath : (root.sectionAt? path).isSome)
    (hfree : ∀ s, root.lookup? (path ++ [key]) ≠ some (.subsection s))
    (hvw : ∀ r y, SameScalarsBut (path ++ [key]) root r →
      r.ComesTo (path ++ [key]) v.pieces y → r.ComesTo (path ++ [key]) w.pieces y)
    (h : (root.putAt path key ⟨.scalar v, attrs⟩).StandsFor q x) :
    (root.putAt path key ⟨.scalar w, attrs⟩).StandsFor q x := by
  obtain ⟨hv, hvroot⟩ := lookup?_putAt hpath hfree v attrs
  obtain ⟨hw, hwroot⟩ := lookup?_putAt hpath hfree w attrs
  exact h.transfer (hvroot.symm.trans hwroot) hv hw fun y => hvw _ y hwroot

/-- When a template is evaluated at once, with nothing in the way of capturing its references, then
storing the outcome and storing the template come to the same: evaluation makes the same of both
trees, or fails on both. No key has a colon in its name, as in a configuration. -/
theorem evaluateAll_putAt_captured (hkeys : root.Everywhere KeysDistinct)
    (hcolonless : root.Everywhere Colonless) (hkey : ':' ∉ key.toList)
    (hpath : (root.sectionAt? path).isSome)
    (hfree : ∀ s, root.lookup? (path ++ [key]) ≠ some (.subsection s))
    (hrefs : ∀ ref, .reference ref ∈ t.pieces → root.Capturable (path ++ [key]) ref)
    (hcapture : root.evaluateImmediate (path ++ [key]) t = .ok v) (attrs : KeyAttrs)
    (out : Section) :
    (root.putAt path key ⟨.scalar (.template t), attrs⟩).evaluateAll = .ok out ↔
      (root.putAt path key ⟨.scalar v, attrs⟩).evaluateAll = .ok out := by
  -- a key stands for the same text in both trees, by which they are evaluated alike
  have hstands : ∀ p x, (root.putAt path key ⟨.scalar (.template t), attrs⟩).StandsFor p x ↔
      (root.putAt path key ⟨.scalar v, attrs⟩).StandsFor p x := by
    intro p x
    constructor
    · refine standsFor_putAt_of_comesTo hpath hfree fun r y halike => ?_
      exact (comesTo_evaluateImmediate_iff halike hrefs hcapture).mp
    · refine standsFor_putAt_of_comesTo hpath hfree fun r y halike => ?_
      exact (comesTo_evaluateImmediate_iff halike hrefs hcapture).mpr
  have hdistinct : ∀ w, (root.putAt path key ⟨.scalar w, attrs⟩).Everywhere KeysDistinct :=
    fun w => keysDistinct_putAt hkeys hpath
  have hnames : ∀ w, (root.putAt path key ⟨.scalar w, attrs⟩).Everywhere Colonless :=
    fun w => colonless_putAt hcolonless hkey hpath
  constructor
  · exact (sameLayouts_putAt hkeys hpath).evaluateAll_eq (hdistinct _) (hdistinct _) (hnames _)
      hstands
  · exact (sameLayouts_putAt hkeys hpath).evaluateAll_eq (hdistinct _) (hdistinct _) (hnames _)
      fun p x => (hstands p x).symm

/-- A tree in which `a:u` and `b:w` hold templates, one of them with a reference from the root. -/
def referring : Section :=
  ⟨none, ⟨[
    ("base", ⟨.scalar (.text "x"), {}⟩),
    ("a", ⟨.subsection ⟨some "a", ⟨[
      ("u", ⟨.scalar (.template ⟨[.reference ⟨false, ["v"]⟩, .literal "!"]⟩), {}⟩),
      ("v", ⟨.scalar (.text "1"), {}⟩)]⟩⟩, {}⟩),
    ("b", ⟨.subsection ⟨some "b", ⟨[
      ("w", ⟨.scalar (.template ⟨[.reference ⟨true, ["base"]⟩]⟩), {}⟩)]⟩⟩, {}⟩)]⟩⟩

/-- A value for the new key `a:k`, which refers to both templates and to a text. -/
def referringValue : Template :=
  ⟨[.reference ⟨false, ["u"]⟩, .literal "-", .reference ⟨true, ["b", "w"]⟩,
    .reference ⟨false, ["v"]⟩]⟩

/-- What that value captures. -/
def referringCaptured : Scalar :=
  .template ⟨[.nested [.reference ⟨false, ["v"]⟩, .literal "!"], .literal "-",
    .nested [.reference ⟨true, ["base"]⟩], .literal "1"]⟩

/-- A value that refers to a text and to two templates, of which the second has an absolute
reference in another section, comes to the same text whether it is captured or deferred. -/
theorem evaluateAll_putAt_captured_referring :
    ∃ out, referring.evaluateImmediate ["a", "k"] referringValue = .ok referringCaptured ∧
      (referring.putAt ["a"] "k" ⟨.scalar (.template referringValue), {}⟩).evaluateAll = .ok out ∧
      (referring.putAt ["a"] "k" ⟨.scalar referringCaptured, {}⟩).evaluateAll = .ok out ∧
      out.textAt? ["a", "k"] = some "1!-x1" := by
  have hkeys : referring.Everywhere KeysDistinct := by
    refine .of_toList (by decide) ?_
    rintro _ (_ | ⟨_, _ | ⟨_, _ | ⟨_, ⟨⟩⟩⟩⟩) sub ⟨⟩
    · refine .of_toList (by decide) ?_
      rintro _ (_ | ⟨_, _ | ⟨_, ⟨⟩⟩⟩) sub ⟨⟩
    · refine .of_toList (by decide) ?_
      rintro _ (_ | ⟨_, ⟨⟩⟩) sub ⟨⟩
  have hcolonless : referring.Everywhere Colonless := by
    refine .of_toList (by unfold Colonless; decide) ?_
    rintro _ (_ | ⟨_, _ | ⟨_, _ | ⟨_, ⟨⟩⟩⟩⟩) sub ⟨⟩
    · refine .of_toList (by unfold Colonless; decide) ?_
      rintro _ (_ | ⟨_, _ | ⟨_, ⟨⟩⟩⟩) sub ⟨⟩
    · refine .of_toList (by unfold Colonless; decide) ?_
      rintro _ (_ | ⟨_, ⟨⟩⟩) sub ⟨⟩
  have hrefs : ∀ ref, .reference ref ∈ referringValue.pieces →
      referring.Capturable ["a", "k"] ref := by
    intro ref hmem
    have hcases : ref = ⟨false, ["u"]⟩ ∨ ref = ⟨true, ["b", "w"]⟩ ∨ ref = ⟨false, ["v"]⟩ := by
      simpa [referringValue, Template.pieces, Fragment.piecesList, Fragment.pieces] using hmem
    rcases hcases with rfl | rfl | rfl
    · exact ⟨by decide, fun t _ => Or.inl rfl⟩
    · refine ⟨by decide, fun t ht => Or.inr fun ref' hmem' => ?_⟩
      cases ht
      cases List.mem_singleton.mp hmem'
      rfl
    · exact ⟨by decide, nofun⟩
  have hcapture : referring.evaluateImmediate ["a", "k"] referringValue = .ok referringCaptured :=
    rfl
  obtain ⟨out, hout, htext⟩ : ∃ out,
      (referring.putAt ["a"] "k" ⟨.scalar (.template referringValue), {}⟩).evaluateAll = .ok out ∧
        out.textAt? ["a", "k"] = some "1!-x1" := ⟨_, rfl, rfl⟩
  have hfree : ∀ s, referring.lookup? ["a", "k"] ≠ some (.subsection s) := by
    rintro s ⟨⟩
  have hout' := (evaluateAll_putAt_captured hkeys hcolonless (by decide) rfl hfree hrefs hcapture {}
    out).mp hout
  exact ⟨out, hcapture, hout, hout', htext⟩

end Section

end LayeredConfig
