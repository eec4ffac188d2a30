import LayeredConfig.Proofs.Section.ReferenceErrors

/-!
# What keys stand for

Evaluation follows references with a chain of names and a bound on its length. `ComesTo` says what
a value comes to without either: a literal is what it is, and a reference comes to what the key that
it leads to comes to. A key `StandsFor` a text if its value comes to it. When no key has a colon in
its name, evaluation succeeds exactly when every key that holds a scalar stands for a text
(`exists_evaluateAll_iff`), and then the evaluated tree holds these texts. So two trees of the same
layout whose keys stand for the same texts are evaluated alike (`SameLayouts.evaluateAll_eq`).
-/

namespace LayeredConfig

/-- The pieces of a scalar: a text is a literal piece. -/
def Scalar.pieces : Scalar → List Piece
  | .text s => [.literal s]
  | .template t => t.pieces

namespace Section

variable {root root' s s' : Section} {p q chain : List String} {k : String} {n : Nat}
  {ref : Reference} {pieces before after : List Piece} {t : Template} {v : Scalar} {x y z : String}

/-- In the value of the key at a path, the pieces come to a text. -/
inductive ComesTo (root : Section) : (path : List String) → List Piece → String → Prop
  | nil {p : List String} : ComesTo root p [] ""
  | literal {p : List String} {s : String} {pieces : List Piece} {x : String}
      (rest : ComesTo root p pieces x) : ComesTo root p (.literal s :: pieces) (s ++ x)
  | reference {p : List String} {ref : Reference} {v : Scalar} {pieces : List Piece}
      {x y : String} (leads : root.lookup? (ref.resolve p) = some (.scalar v))
      (target : ComesTo root (ref.resolve p) v.pieces x) (rest : ComesTo root p pieces y) :
      ComesTo root p (.reference ref :: pieces) (x ++ y)

/-- The key at a path holds a scalar that comes to a text. -/
def StandsFor (root : Section) (p : List String) (x : String) : Prop :=
  ∃ v, root.lookup? p = some (.scalar v) ∧ root.ComesTo p v.pieces x

/-! ## Pieces -/

/-- No pieces come to the empty text. -/
theorem comesTo_nil_iff : root.ComesTo p [] x ↔ x = "" := by
  constructor
  · intro h
    cases h
    rfl
  · rintro rfl
    exact .nil

/-- A literal comes to itself. -/
theorem comesTo_literal_iff {s : String} : root.ComesTo p [.literal s] x ↔ x = s := by
  constructor
  · intro h
    cases h with
    | literal rest => rw [comesTo_nil_iff.mp rest, String.append_empty]
  · rintro rfl
    have h : root.ComesTo p [.literal x] (x ++ "") := .literal .nil
    rwa [String.append_empty] at h

/-- A reference comes to what the key that it leads to stands for. -/
theorem comesTo_reference_iff :
    root.ComesTo p [.reference ref] x ↔ root.StandsFor (ref.resolve p) x := by
  constructor
  · intro h
    cases h with
    | @reference _ _ v _ x _ leads target rest =>
      rw [comesTo_nil_iff.mp rest, String.append_empty]
      exact ⟨v, leads, target⟩
  · rintro ⟨v, leads, target⟩
    have h : root.ComesTo p [.reference ref] (x ++ "") := .reference leads target .nil
    rwa [String.append_empty] at h

/-- Two lists of pieces come to their texts one after the other. -/
theorem ComesTo.append (h : root.ComesTo p before x) (h' : root.ComesTo p after y) :
    root.ComesTo p (before ++ after) (x ++ y) := by
  induction before generalizing x with
  | nil =>
    rw [comesTo_nil_iff.mp h, String.empty_append]
    exact h'
  | cons piece before ih =>
    cases h with
    | literal rest =>
      rw [String.append_assoc]
      exact .literal (ih rest)
    | reference leads target rest =>
      rw [String.append_assoc]
      exact .reference leads target (ih rest)

/-- Appended pieces come to a text exactly if it is made of texts that the two parts come to. -/
theorem comesTo_append_iff :
    root.ComesTo p (before ++ after) z ↔
      ∃ x y, root.ComesTo p before x ∧ root.ComesTo p after y ∧ z = x ++ y := by
  constructor
  · intro h
    induction before generalizing z with
    | nil => exact ⟨"", z, .nil, h, String.empty_append.symm⟩
    | cons piece before ih =>
      cases h with
      | @literal _ s _ _ rest =>
        obtain ⟨x, y, hx, hy, rfl⟩ := ih rest
        exact ⟨s ++ x, y, .literal hx, hy, String.append_assoc.symm⟩
      | @reference _ _ v _ a _ leads target rest =>
        obtain ⟨x, y, hx, hy, rfl⟩ := ih rest
        exact ⟨a ++ x, y, .reference leads target hx, hy, String.append_assoc.symm⟩
  · rintro ⟨x, y, hx, hy, rfl⟩
    exact hx.append hy

/-- Each reference among pieces that come to a text leads to a key that stands for one. -/
theorem ComesTo.standsFor_of_mem (h : root.ComesTo p pieces x) (hmem : .reference ref ∈ pieces) :
    ∃ y, root.StandsFor (ref.resolve p) y := by
  obtain ⟨before, after, rfl⟩ := List.append_of_mem hmem
  obtain ⟨_, _, _, htail, -⟩ := comesTo_append_iff.mp h
  cases htail with
  | @reference _ _ v _ y _ leads target _ => exact ⟨y, v, leads, target⟩

/-- Pieces come to at most one text. -/
theorem ComesTo.unique (h : root.ComesTo p pieces x) (h' : root.ComesTo p pieces y) : x = y := by
  induction h generalizing y with
  | nil => exact (comesTo_nil_iff.mp h').symm
  | literal _ ih =>
    cases h' with
    | literal rest => rw [ih rest]
  | reference leads _ _ ihtarget ihrest =>
    cases h' with
    | reference leads' target rest =>
      rw [leads] at leads'
      cases leads'
      rw [ihtarget target, ihrest rest]

/-- A key stands for what its scalar comes to. -/
theorem standsFor_iff (h : root.lookup? p = some (.scalar v)) :
    root.StandsFor p x ↔ root.ComesTo p v.pieces x := by
  constructor
  · rintro ⟨w, hw, hx⟩
    rw [h] at hw
    cases hw
    exact hx
  · intro hx
    exact ⟨v, h, hx⟩

/-- A key stands for one text only. -/
theorem StandsFor.unique (h : root.StandsFor p x) (h' : root.StandsFor p y) : x = y := by
  obtain ⟨v, hv, hx⟩ := h
  exact hx.unique ((standsFor_iff hv).mp h')

/-- A key with a plain text stands for it. -/
theorem standsFor_text (h : root.lookup? p = some (.scalar (.text x))) : root.StandsFor p x :=
  (standsFor_iff h).mpr (comesTo_literal_iff.mpr rfl)

/-! ## Cycles -/

/-- From a key that pieces refer to, references cannot be followed forever. -/
theorem ComesTo.acc (h : root.ComesTo p pieces x) :
    ∀ ref, .reference ref ∈ pieces → Acc (fun a b => root.Refers b a) (ref.resolve p) := by
  induction h with
  | nil =>
    intro ref hmem
    cases hmem
  | literal _ ih =>
    intro ref hmem
    cases hmem with
    | tail _ hmem => exact ih ref hmem
  | reference leads _ _ ihtarget ihrest =>
    intro ref hmem
    cases hmem with
    | tail _ hmem => exact ihrest ref hmem
    | head =>
      refine .intro _ fun q hq => ?_
      obtain ⟨t, ref', -, ht, hmem', rfl, -⟩ := hq
      rw [leads] at ht
      cases ht
      exact ihtarget ref' hmem'

/-- A key from which references do not go on for ever is not on a cycle. -/
theorem not_transGen_self_of_acc (h : Acc (fun a b => root.Refers b a) p) :
    ¬ Relation.TransGen root.Refers p p := by
  induction h with
  | intro p _ ih =>
    intro hcycle
    obtain ⟨q, hpq, hqp⟩ := Relation.TransGen.head'_iff.mp hcycle
    exact ih q hpq (.tail' hqp hpq)

/-- A key that stands for a text does not reach itself. -/
theorem StandsFor.not_cycle (h : root.StandsFor p x) : ¬ Relation.TransGen root.Refers p p := by
  refine not_transGen_self_of_acc (.intro p fun q hq => ?_)
  obtain ⟨t, ref, -, ht, hmem, rfl, -⟩ := hq
  exact ((standsFor_iff ht).mp h).acc ref hmem

/-! ## Evaluation -/

/-- The text that evaluation finds is the one that the pieces come to. -/
theorem comesTo_of_joinTexts
    (h : Piece.joinTexts (root.referenceText n chain p) pieces = .ok x) :
    root.ComesTo p pieces x := by
  induction n using Nat.strongRecOn generalizing chain p pieces x with
  | ind n ih =>
    induction pieces generalizing x with
    | nil =>
      rw [Piece.joinTexts_nil_eq_ok_iff.mp h]
      exact .nil
    | cons piece pieces ihpieces =>
      obtain ⟨y, z, hy, hz, rfl⟩ := Piece.joinTexts_cons_eq_ok_iff.mp h
      have hrest := ihpieces hz
      cases piece with
      | literal s =>
        cases hy
        exact .literal hrest
      | reference ref =>
        -- the reference leads to a text, or to a template that is evaluated with less fuel
        rcases of_referenceText_eq_ok hy with htext | ⟨t, m, htemplate, hn, hjoin⟩
        · exact .reference htext (comesTo_literal_iff.mpr rfl) hrest
        · exact .reference htemplate (ih m (by omega) hjoin) hrest

/-- The evaluated tree holds, at every key with a scalar, the text that the key stands for. -/
theorem evaluateAll_standsFor (h : root.evaluateAll = .ok root')
    (hv : root.lookup? p = some (.scalar v)) :
    ∃ x, root'.lookup? p = some (.scalar (.text x)) ∧ root.StandsFor p x := by
  cases v with
  | text x => exact ⟨x, evaluateAll_text h hv, standsFor_text hv⟩
  | template t =>
    obtain ⟨x, hx, htext⟩ := evaluateAll_template h hv
    exact ⟨x, hx, .template t, hv, comesTo_of_joinTexts htext⟩

/-- Where no key has a colon in its name, the name of a key tells which key it is. -/
theorem eq_of_pathName_eq {v w : Value} (hcolonless : root.Everywhere Colonless)
    (hp : root.lookup? p = some v) (hq : root.lookup? q = some w)
    (hname : pathName p = pathName q) : p = q := by
  obtain ⟨hpne, hpkeys⟩ := colonless_of_lookup? hcolonless hp
  obtain ⟨hqne, hqkeys⟩ := colonless_of_lookup? hcolonless hq
  exact pathName_injective hpne hqne hpkeys hqkeys hname

/-- Where no key has a colon in its name, evaluation succeeds exactly when every key with a scalar
stands for a text. -/
theorem exists_evaluateAll_iff (hkeys : root.Everywhere KeysDistinct)
    (hcolonless : root.Everywhere Colonless) :
    (∃ out, root.evaluateAll = .ok out) ↔
      ∀ p v, root.lookup? p = some (.scalar v) → ∃ x, root.StandsFor p x := by
  constructor
  · rintro ⟨out, hout⟩ p v hv
    obtain ⟨x, -, hx⟩ := evaluateAll_standsFor hout hv
    exact ⟨x, hx⟩
  · intro h
    cases heval : root.evaluateAll with
    | ok out => exact ⟨out, rfl⟩
    | error e =>
      -- an error names a reference of a template key, which stands for a text all the same
      exfalso
      have hjustified := justified_of_evaluateAll hkeys heval
      obtain ⟨t, ref, ht, hmem, htarget⟩ := hjustified.reference
      obtain ⟨x, hx⟩ := h e.key (.template t) ht
      obtain ⟨y, w, hw, -⟩ := ((standsFor_iff ht).mp hx).standsFor_of_mem hmem
      rw [htarget] at hw
      cases hfault : e.fault with
      | unresolved =>
        rw [hjustified.unresolved hfault] at hw
        cases hw
      | sectionReference =>
        obtain ⟨s, hs⟩ := hjustified.sectionReference hfault
        rw [hs] at hw
        cases hw
      | cycle =>
        obtain ⟨q, hname, hreach⟩ := hjustified.cycle hfault
        obtain ⟨-, ⟨t', -, -, ht', -⟩, -⟩ := Relation.TransGen.head'_iff.mp hreach
        obtain rfl := eq_of_pathName_eq hcolonless ht' ht hname
        exact hx.not_cycle hreach

/-! ## Trees of the same layout -/

/-- What the layout of a section shows of an entry. -/
def shape (e : Entry) : KeyAttrs × Bool :=
  (e.attrs, e.value.isSubsection)

/-- The layout of a section is its name with the shapes of its entries. -/
theorem layout_eq (s : Section) : s.layout = (s.name, (s.entries.map shape).toList) :=
  rfl

/-- Two sections have the same layout when they show the same at every key. -/
theorem layout_eq_iff (hs : s.KeysDistinct) :
    s.layout = s'.layout ↔ s.name = s'.name ∧ s.entries.keys = s'.entries.keys ∧
      ∀ k, (s.entries.get? k).map shape = (s'.entries.get? k).map shape := by
  constructor
  · intro h
    refine ⟨congrArg Prod.fst h, (keys_of_layout_eq h.symm).symm, fun k => ?_⟩
    have hmap : s.entries.map shape = s'.entries.map shape :=
      congrArg OrderedMap.mk (congrArg Prod.snd h)
    rw [← OrderedMap.get?_map, ← OrderedMap.get?_map, hmap]
  · rintro ⟨hname, hkeys, hget⟩
    rw [layout_eq, layout_eq, hname]
    -- distinct keys make an ordered map its order and its look-ups
    have hmap : s.entries.map shape = s'.entries.map shape := by
      refine OrderedMap.ext_get? ?_ ?_ fun k => ?_
      · rw [OrderedMap.keys_map]
        exact hs
      · rw [OrderedMap.keys_map, OrderedMap.keys_map, hkeys]
      · rw [OrderedMap.get?_map, OrderedMap.get?_map, hget]
    rw [hmap]

/-- Two trees have the same layout at the end of every path. -/
def SameLayouts (s s' : Section) : Prop :=
  ∀ p, (s.sectionAt? p).map layout = (s'.sectionAt? p).map layout

/-- Trees of the same layout have sections of the same layout. -/
theorem SameLayouts.down {sub sub' : Section} (h : SameLayouts s s')
    (hsub : s.subsection? k = some sub) (hsub' : s'.subsection? k = some sub') :
    SameLayouts sub sub' := by
  intro p
  have hp := h (k :: p)
  rwa [sectionAt?_cons, sectionAt?_cons, hsub, hsub'] at hp

/-- Trees of the same layout have the same layout at the root. -/
theorem SameLayouts.layout_eq (h : SameLayouts s s') : s.layout = s'.layout :=
  Option.some.inj (h [])

/-- A tree is determined by its layouts and its scalars. -/
theorem SameLayouts.ext (h : SameLayouts s s') (hs : s.Everywhere KeysDistinct)
    (hscalar : ∀ p v, s.lookup? p = some (.scalar v) → s'.lookup? p = some (.scalar v)) :
    s = s' := by
  induction s using subsection_induction generalizing s' with
  | step s ih =>
    obtain ⟨hname, hkeys, hshape⟩ := (layout_eq_iff hs.holds).mp h.layout_eq
    have hentries : s.entries = s'.entries := by
      refine OrderedMap.ext_get? hs.holds hkeys fun k => ?_
      have hk := hshape k
      cases hget : s.entries.get? k with
      | none =>
        rw [hget, Option.map_none] at hk
        rw [Option.map_eq_none_iff.mp hk.symm]
      | some e =>
        rw [hget, Option.map_some] at hk
        obtain ⟨e', hget', heq⟩ := Option.map_eq_some_iff.mp hk.symm
        obtain ⟨value, attrs⟩ := e
        obtain ⟨value', attrs'⟩ := e'
        obtain ⟨rfl, hsubsection⟩ := Prod.mk.inj heq
        rw [hget']
        cases value with
        | scalar v =>
          have hv := hscalar [k] v (by rw [lookup?_singleton, hget]; rfl)
          rw [lookup?_singleton, hget'] at hv
          cases hv
          rfl
        | subsection sub =>
          obtain ⟨sub', rfl⟩ := Value.isSubsection_iff.mp hsubsection
          have hsub := subsection?_of_get? hget
          have hsub' := subsection?_of_get? hget'
          -- the sections inside have the same layout and the same scalars, and are smaller
          have hbelow : sub = sub' := by
            refine ih k sub hsub (h.down hsub hsub') (hs.down hsub) fun p v hv => ?_
            have hp : p ≠ [] := by
              rintro rfl
              cases hv
            have hlookup := hscalar (k :: p) v (by rw [lookup?_cons s k hp, hsub]; exact hv)
            rwa [lookup?_cons s' k hp, hsub'] at hlookup
          rw [hbelow]
    obtain ⟨name, entries⟩ := s
    obtain ⟨name', entries'⟩ := s'
    rw [show name = name' from hname, show entries = entries' from hentries]

/-- Two trees of the same layout hold scalars at the same keys. -/
theorem SameLayouts.exists_scalar (h : SameLayouts s s') (hs : s.Everywhere KeysDistinct)
    (hv : s.lookup? p = some (.scalar v)) : ∃ v', s'.lookup? p = some (.scalar v') := by
  rcases List.eq_nil_or_concat' p with rfl | ⟨q, k, rfl⟩
  · cases hv
  · rw [lookup?, entryAt?_concat] at hv ⊢
    obtain ⟨e, he, hvalue⟩ := Option.map_eq_some_iff.mp hv
    obtain ⟨sub, hsub, hget⟩ := Option.bind_eq_some_iff.mp he
    have hq := h q
    rw [hsub, Option.map_some] at hq
    obtain ⟨sub', hsub', hlayout⟩ := Option.map_eq_some_iff.mp hq.symm
    obtain ⟨-, -, hshape⟩ := (layout_eq_iff (hs.sectionAt? hsub).holds).mp hlayout.symm
    have hk := hshape k
    rw [hget, Option.map_some] at hk
    obtain ⟨⟨value', attrs'⟩, hget', heq⟩ := Option.map_eq_some_iff.mp hk.symm
    have hscalar : value'.isSubsection = false := by
      rw [show value'.isSubsection = e.value.isSubsection from congrArg Prod.snd heq, hvalue]
      rfl
    cases value' with
    | scalar v' => exact ⟨v', by rw [hsub', Option.bind_some, hget']; rfl⟩
    | subsection sub => cases hscalar

/-- Having the same layout is symmetric. -/
theorem SameLayouts.symm (h : SameLayouts s s') : SameLayouts s' s :=
  fun p => (h p).symm

/-- An evaluated tree has the layout of the tree. -/
theorem sameLayouts_of_evaluateAll (h : root.evaluateAll = .ok root') : SameLayouts root' root :=
  evaluateAll_layout h

/-- When one of two trees of the same layout is evaluated, so is the other, provided that their keys
stand for the same texts. -/
theorem SameLayouts.evaluateAll_eq (h : SameLayouts s s') (hs : s.Everywhere KeysDistinct)
    (hs' : s'.Everywhere KeysDistinct) (hcolonless : s'.Everywhere Colonless)
    (hstands : ∀ p x, s.StandsFor p x ↔ s'.StandsFor p x) (hroot : s.evaluateAll = .ok root) :
    s'.evaluateAll = .ok root := by
  -- every scalar stands for a text, as in the other tree, which is all that evaluation needs
  obtain ⟨root', hroot'⟩ : ∃ root', s'.evaluateAll = .ok root' := by
    refine (exists_evaluateAll_iff hs' hcolonless).mpr fun p v' hv' => ?_
    obtain ⟨v, hv⟩ := h.symm.exists_scalar hs' hv'
    obtain ⟨x, -, hx⟩ := evaluateAll_standsFor hroot hv
    exact ⟨x, (hstands p x).mp hx⟩
  have hkeys := evaluateAll_keysDistinct hroot hs
  have hlayouts : SameLayouts root root' := by
    intro p
    rw [evaluateAll_layout hroot p, h p, evaluateAll_layout hroot' p]
  have heq : root = root' := by
    refine hlayouts.ext hkeys fun p w hw => ?_
    -- both hold the one text that the key stands for
    obtain ⟨v, hv⟩ := (sameLayouts_of_evaluateAll hroot).exists_scalar hkeys hw
    obtain ⟨x, hx, hstandsx⟩ := evaluateAll_standsFor hroot hv
    obtain ⟨v', hv', -⟩ := (hstands p x).mp hstandsx
    obtain ⟨x', hx', hstandsx'⟩ := evaluateAll_standsFor hroot' hv'
    rw [hw] at hx
    rw [hx, hx', hstandsx'.unique ((hstands p x).mp hstandsx)]
  rw [hroot', heq]

/-- A tree without templates is what it is evaluated to. -/
theorem evaluateAll_eq_self (hs : s.Everywhere KeysDistinct)
    (h : ∀ p t, s.lookup? p ≠ some (.scalar (.template t))) : s.evaluateAll = .ok s := by
  cases heval : s.evaluateAll with
  | error e =>
    obtain ⟨p, t, ht, -⟩ := exists_of_evaluateIn_eq_error hs heval
    exact absurd ht (h p t)
  | ok out =>
    have heq : s = out := by
      refine (sameLayouts_of_evaluateAll heval).symm.ext hs fun p v hv => ?_
      cases v with
      | text x => exact evaluateAll_text heval hv
      | template t => exact absurd hv (h p t)
    rw [heq]

end Section

end LayeredConfig
