import LayeredConfig.Proofs.Except
import LayeredConfig.Proofs.Section.Paths
import LayeredConfig.Section.Evaluate
import Mathlib.Logic.Relation

/-!
# What evaluation makes of a tree

Every template is evaluated on its own, against the tree as it was and with a chain of keys of its
own. All the same, the results fit together: a template has become the concatenation of its
literals and of the texts that the *evaluated* tree holds where its references lead. Two facts
carry this. The text of a reference depends neither on the chain nor on the fuel it was computed
with (`referenceText_unique`), and following a reference uses up fuel, so that no template key
that evaluates can reach itself.
-/

namespace LayeredConfig

/-! ## The text of a template in an evaluated tree -/

namespace Fragment

mutual

/-- The text of a fragment, given the texts of references. -/
def textWith (resolve : Reference → Option String) : Fragment → Option String
  | .literal text => some text
  | .reference ref => resolve ref
  | .nested fragments => textsWith resolve fragments

/-- The texts of some fragments, one after the other. -/
def textsWith (resolve : Reference → Option String) : List Fragment → Option String
  | [] => some ""
  | fragment :: fragments => do
    let text ← fragment.textWith resolve
    let texts ← textsWith resolve fragments
    some (text ++ texts)

end

end Fragment

/-- The text that a tree holds at a path. -/
def Section.textAt? (s : Section) (path : List String) : Option String :=
  (s.lookup? path).bind Value.text?

/-- The concatenation that a template stands for as the value of `key`, with the text that `tree`
holds where a reference leads. -/
def Template.textIn (tree : Section) (key : List String) (t : Template) : Option String :=
  Fragment.textsWith (fun ref => tree.textAt? (ref.resolve key)) t.fragments

namespace Piece

variable {ε : Type} {resolve : Reference → Except ε String} {x : String}

/-- No pieces make the empty text. -/
theorem joinTexts_nil_eq_ok_iff : joinTexts resolve [] = .ok x ↔ x = "" := by
  constructor
  · intro h
    exact (Except.ok.inj h).symm
  · rintro rfl
    rfl

/-- The text of some pieces is that of the first one, followed by that of the others. -/
theorem joinTexts_cons (resolve : Reference → Except ε String) (piece : Piece)
    (pieces : List Piece) :
    joinTexts resolve (piece :: pieces) =
      piece.text resolve >>= fun y => (joinTexts resolve pieces).map (y ++ ·) := by
  simp only [joinTexts, List.mapM_cons]
  cases piece.text resolve with
  | error e => rfl
  | ok y =>
    cases pieces.mapM (Piece.text resolve) with
    | error e => rfl
    | ok ys => exact congrArg Except.ok String.join_cons

/-- The text of a single piece is its own. -/
theorem joinTexts_singleton (resolve : Reference → Except ε String) (piece : Piece) :
    joinTexts resolve [piece] = piece.text resolve := by
  rw [joinTexts_cons]
  cases piece.text resolve with
  | error e => rfl
  | ok y => exact congrArg Except.ok String.append_empty

/-- The texts of two lists of pieces are joined in order, and the first failure stands. -/
theorem joinTexts_append (resolve : Reference → Except ε String) (before after : List Piece) :
    joinTexts resolve (before ++ after) =
      joinTexts resolve before >>= fun y => (joinTexts resolve after).map (y ++ ·) := by
  induction before with
  | nil =>
    rw [List.nil_append, show joinTexts resolve [] = .ok "" from rfl]
    cases joinTexts resolve after with
    | error e => rfl
    | ok z => exact congrArg Except.ok String.empty_append.symm
  | cons piece before ih =>
    rw [List.cons_append, joinTexts_cons, joinTexts_cons, ih]
    cases piece.text resolve with
    | error e => rfl
    | ok y =>
      cases joinTexts resolve before with
      | error e => rfl
      | ok z =>
        cases joinTexts resolve after with
        | error e => rfl
        | ok w => exact congrArg Except.ok String.append_assoc.symm

/-- Some pieces have a text if the first one and the others have. -/
theorem joinTexts_cons_eq_ok_iff {piece : Piece} {pieces : List Piece} :
    joinTexts resolve (piece :: pieces) = .ok x ↔
      ∃ y z, piece.text resolve = .ok y ∧ joinTexts resolve pieces = .ok z ∧ x = y ++ z := by
  simp only [joinTexts_cons, Except.bind_eq_ok_iff, Except.map_eq_ok_iff, exists_and_left,
    eq_comm (a := x)]

/-- Two lists of pieces have a text together if each of them has one. -/
theorem joinTexts_append_eq_ok_iff {before after : List Piece} :
    joinTexts resolve (before ++ after) = .ok x ↔
      ∃ y z, joinTexts resolve before = .ok y ∧ joinTexts resolve after = .ok z ∧ x = y ++ z := by
  simp only [joinTexts_append, Except.bind_eq_ok_iff, Except.map_eq_ok_iff, exists_and_left,
    eq_comm (a := x)]

/-- When pieces have a text, each reference among them has one. -/
theorem exists_of_mem_of_joinTexts {ref : Reference} {pieces : List Piece}
    (h : joinTexts resolve pieces = .ok x) (hmem : .reference ref ∈ pieces) :
    ∃ y, resolve ref = .ok y := by
  induction pieces generalizing x with
  | nil => cases hmem
  | cons piece pieces ih =>
    obtain ⟨y, z, hy, hz, -⟩ := joinTexts_cons_eq_ok_iff.mp h
    rcases List.mem_cons.mp hmem with rfl | hmem
    · exact ⟨y, hy⟩
    · exact ih hz hmem

/-- The text of some pieces is determined by the texts of their references. -/
theorem joinTexts_unique {resolve' : Reference → Except ε String} {y : String}
    (hresolve : ∀ ref a b, resolve ref = .ok a → resolve' ref = .ok b → a = b)
    {pieces : List Piece} (h : joinTexts resolve pieces = .ok x)
    (h' : joinTexts resolve' pieces = .ok y) : x = y := by
  induction pieces generalizing x y with
  | nil => rw [joinTexts_nil_eq_ok_iff.mp h, joinTexts_nil_eq_ok_iff.mp h']
  | cons piece pieces ih =>
    obtain ⟨a, b, ha, hb, rfl⟩ := joinTexts_cons_eq_ok_iff.mp h
    obtain ⟨a', b', ha', hb', rfl⟩ := joinTexts_cons_eq_ok_iff.mp h'
    have hhead : a = a' := by
      cases piece with
      | literal s => exact Except.ok.inj (ha.symm.trans ha')
      | reference ref => exact hresolve ref a a' ha ha'
    rw [hhead, ih hb hb']

end Piece

namespace Fragment

variable {ε : Type} {resolve : Reference → Except ε String} {resolve' : Reference → Option String}

mutual

/-- What the pieces of a fragment come to is the text of the fragment. -/
theorem textWith_of_pieces
    (hresolve : ∀ ref y, resolve ref = .ok y → resolve' ref = some y) :
    ∀ (fragment : Fragment) {x : String},
      Piece.joinTexts resolve fragment.pieces = .ok x → fragment.textWith resolve' = some x
  | .literal text, x, h => by
    rw [pieces, Piece.joinTexts_cons_eq_ok_iff] at h
    obtain ⟨y, z, hy, hz, rfl⟩ := h
    cases hy
    rw [Piece.joinTexts_nil_eq_ok_iff.mp hz, String.append_empty, textWith]
  | .reference ref, x, h => by
    rw [pieces, Piece.joinTexts_cons_eq_ok_iff] at h
    obtain ⟨y, z, hy, hz, rfl⟩ := h
    rw [Piece.joinTexts_nil_eq_ok_iff.mp hz, String.append_empty, textWith]
    exact hresolve ref y hy
  | .nested fragments, x, h => by
    rw [textWith]
    exact textsWith_of_pieces hresolve fragments h

/-- What the pieces of some fragments come to is the text of the fragments. -/
theorem textsWith_of_pieces
    (hresolve : ∀ ref y, resolve ref = .ok y → resolve' ref = some y) :
    ∀ (fragments : List Fragment) {x : String},
      Piece.joinTexts resolve (piecesList fragments) = .ok x →
        textsWith resolve' fragments = some x
  | [], x, h => by
    rw [Piece.joinTexts_nil_eq_ok_iff.mp h, textsWith]
  | fragment :: fragments, x, h => by
    rw [piecesList, Piece.joinTexts_append_eq_ok_iff] at h
    obtain ⟨y, z, hy, hz, rfl⟩ := h
    rw [textsWith, textWith_of_pieces hresolve fragment hy,
      textsWith_of_pieces hresolve fragments hz]
    rfl

end

end Fragment

namespace Section

variable {root root' s s' : Section} {path chain chain' p q : List String} {n m : Nat}
  {ref : Reference} {x y : String}

/-! ## Following a reference -/

/-- What it takes for a reference to have a text: it leads to a text, or to a template whose
pieces have one with less fuel. -/
theorem of_referenceText_eq_ok (h : root.referenceText n chain p ref = .ok x) :
    root.lookup? (ref.resolve p) = some (.scalar (.text x)) ∨
      ∃ t m, root.lookup? (ref.resolve p) = some (.scalar (.template t)) ∧ n = m + 1 ∧
        Piece.joinTexts (root.referenceText m (chain ++ [pathName p]) (ref.resolve p)) t.pieces
          = .ok x := by
  cases n with
  | zero => cases h
  | succ m =>
    simp only [referenceText] at h
    split at h
    · cases h
    · split at h
      · cases h
      · cases h
      · rename_i hlookup
        cases h
        exact Or.inl hlookup
      · rename_i t hlookup
        exact Or.inr ⟨t, m, hlookup, rfl, h⟩

/-- The text of a reference depends neither on the fuel nor on the chain it was computed with. -/
theorem referenceText_unique (h : root.referenceText n chain p ref = .ok x)
    (h' : root.referenceText m chain' p ref = .ok y) : x = y := by
  -- the first run says how deep to look; the second one meets the same values on the way
  induction n generalizing m chain chain' p ref x y with
  | zero => cases h
  | succ n ih =>
    rcases of_referenceText_eq_ok h with htext | ⟨t, n', htemplate, hn, hjoin⟩
    · rcases of_referenceText_eq_ok h' with htext' | ⟨t', _, htemplate', -, -⟩
      · rw [htext] at htext'
        cases htext'
        rfl
      · rw [htext] at htemplate'
        cases htemplate'
    · rcases of_referenceText_eq_ok h' with htext' | ⟨t', m', htemplate', hm, hjoin'⟩
      · rw [htemplate] at htext'
        cases htext'
      · rw [htemplate] at htemplate'
        cases htemplate'
        cases hn
        exact Piece.joinTexts_unique (fun ref' a b ha hb => ih ha hb) hjoin hjoin'

/-! ## The evaluated tree, key by key -/

/-- Evaluation makes neither a section of a scalar nor a scalar of a section. -/
theorem evaluateValue_isSubsection {v v' : Value} (h : evaluateValue root path v = .ok v') :
    v'.isSubsection = v.isSubsection := by
  cases v with
  | scalar scalar =>
    cases scalar with
    | text x =>
      cases h
      rfl
    | template t =>
      obtain ⟨x, -, rfl⟩ := Except.map_eq_ok_iff.mp h
      rfl
  | subsection s =>
    obtain ⟨s', -, rfl⟩ := Except.map_eq_ok_iff.mp h
    rfl

/-- Entries that were evaluated have their first value evaluated on its own, and the others behind
it. -/
theorem evaluateEntries_cons_eq_ok {key : String} {e : Entry}
    {entries out : List (String × Entry)}
    (h : evaluateEntries root path ((key, e) :: entries) = .ok out) :
    ∃ v rest, evaluateValue root (path ++ [key]) e.value = .ok v ∧
      evaluateEntries root path entries = .ok rest ∧ out = (key, ⟨v, e.attrs⟩) :: rest := by
  obtain ⟨value, attrs⟩ := e
  rw [evaluateEntries] at h
  obtain ⟨v, hv, h⟩ := Except.bind_eq_ok_iff.mp h
  obtain ⟨rest, hrest, h⟩ := Except.bind_eq_ok_iff.mp h
  exact ⟨v, rest, hv, hrest, (Except.ok.inj h).symm⟩

/-- What a section shows besides the values of its scalars: its name, and in order its keys with
their attributes and whether they hold sections. -/
def layout (s : Section) : Option String × List (String × KeyAttrs × Bool) :=
  (s.name, s.entries.toList.map fun (key, e) => (key, e.attrs, e.value.isSubsection))

/-- Sections of the same layout have the same keys in the same order. -/
theorem keys_of_layout_eq (h : s'.layout = s.layout) : s'.entries.keys = s.entries.keys := by
  have hkeys : ∀ s : Section, s.entries.keys = s.layout.2.map (·.1) := fun s => by
    simp only [layout, OrderedMap.keys, List.map_map]
    rfl
  rw [hkeys, hkeys, h]

/-- Evaluating a section leaves its layout as it is. -/
theorem evaluateIn_layout (h : evaluateIn root path s = .ok s') : s'.layout = s.layout := by
  obtain ⟨name, ⟨entries⟩⟩ := s
  obtain ⟨out, hout, rfl⟩ := Except.map_eq_ok_iff.mp h
  refine Prod.ext rfl ?_
  simp only [layout]
  -- `h` is about all entries, which the induction takes apart
  clear h
  induction entries generalizing out with
  | nil =>
    cases hout
    rfl
  | cons entry entries ih =>
    obtain ⟨key, e⟩ := entry
    obtain ⟨v, rest, hv, hrest, rfl⟩ := evaluateEntries_cons_eq_ok hout
    rw [List.map_cons, List.map_cons, ih rest hrest, evaluateValue_isSubsection hv]

/-- Two entries of the key at `path`, of which one is the other evaluated. -/
def EvaluatesTo (root : Section) (path : List String) (e e' : Entry) : Prop :=
  e'.attrs = e.attrs ∧ evaluateValue root path e.value = .ok e'.value

/-- Under each key there is the evaluated entry, or there is none before and after. -/
theorem evaluateEntries_lookup {entries out : List (String × Entry)}
    (h : evaluateEntries root path entries = .ok out) (k : String) :
    Option.Rel (EvaluatesTo root (path ++ [k])) (entries.lookup k) (out.lookup k) := by
  induction entries generalizing out with
  | nil =>
    cases h
    exact .none
  | cons entry entries ih =>
    obtain ⟨key, e⟩ := entry
    obtain ⟨v, rest, hv, hrest, rfl⟩ := evaluateEntries_cons_eq_ok h
    rw [OrderedMap.lookup_cons_ite, OrderedMap.lookup_cons_ite]
    by_cases hk : k = key
    · rw [if_pos hk, if_pos hk, hk]
      exact .some ⟨rfl, hv⟩
    · rw [if_neg hk, if_neg hk]
      exact ih hrest

/-- So it is under each key of a section. -/
theorem evaluateIn_get? (h : evaluateIn root path s = .ok s') (k : String) :
    Option.Rel (EvaluatesTo root (path ++ [k])) (s.entries.get? k) (s'.entries.get? k) := by
  obtain ⟨name, ⟨entries⟩⟩ := s
  obtain ⟨out, hout, rfl⟩ := Except.map_eq_ok_iff.mp h
  exact evaluateEntries_lookup hout k

/-- At each path there is the section with its own evaluation, or there is none before and after. -/
theorem evaluateIn_sectionAt? (h : evaluateIn root path s = .ok s') (p : List String) :
    Option.Rel (fun sub sub' => evaluateIn root (path ++ p) sub = .ok sub')
      (s.sectionAt? p) (s'.sectionAt? p) := by
  induction p generalizing path s s' with
  | nil =>
    rw [List.append_nil]
    exact .some h
  | cons k p ih =>
    rw [sectionAt?_cons, sectionAt?_cons, List.append_cons]
    have hget := evaluateIn_get? h k
    unfold subsection? get?
    -- the entry under the first name is evaluated, so that it is a section on both sides or on
    -- neither
    generalize s.entries.get? k = old, s'.entries.get? k = new at hget
    cases hget with
    | none => exact .none
    | @some e e' hvalue =>
      obtain ⟨value, attrs⟩ := e
      obtain ⟨value', attrs'⟩ := e'
      replace hvalue : evaluateValue root (path ++ [k]) value = .ok value' := hvalue.2
      cases value with
      | scalar scalar =>
        have hshape := evaluateValue_isSubsection hvalue
        cases value' with
        | scalar scalar' => exact .none
        | subsection sub' => cases hshape
      | subsection sub =>
        obtain ⟨sub', hsub', rfl⟩ := Except.map_eq_ok_iff.mp hvalue
        exact ih hsub'

/-- Evaluating a tree leaves the layout of every section as it is. -/
theorem evaluateAll_layout (h : root.evaluateAll = .ok root') (p : List String) :
    (root'.sectionAt? p).map layout = (root.sectionAt? p).map layout := by
  have hsection := evaluateIn_sectionAt? h p
  generalize root.sectionAt? p = old, root'.sectionAt? p = new at hsection
  cases hsection with
  | none => rfl
  | some hsub => rw [Option.map_some, Option.map_some, evaluateIn_layout hsub]

/-- Evaluating a tree keeps keys distinct on every level. -/
theorem evaluateAll_keysDistinct (h : root.evaluateAll = .ok root')
    (hkeys : root.Everywhere KeysDistinct) : root'.Everywhere KeysDistinct := by
  refine everywhere_of_sectionAt? fun p sub' hsub' => ?_
  have hlayout := evaluateAll_layout h p
  rw [hsub', Option.map_some] at hlayout
  obtain ⟨sub, hsub, heq⟩ := Option.map_eq_some_iff.mp hlayout.symm
  unfold KeysDistinct
  rw [keys_of_layout_eq heq.symm]
  exact (hkeys.sectionAt? hsub).holds

/-- At each path there is the evaluated entry, or there is none before and after. -/
theorem evaluateAll_entryAt? (h : root.evaluateAll = .ok root') (p : List String) :
    Option.Rel (EvaluatesTo root p) (root.entryAt? p) (root'.entryAt? p) := by
  rcases List.eq_nil_or_concat' p with rfl | ⟨q, k, rfl⟩
  · exact .none
  · rw [entryAt?_concat, entryAt?_concat]
    have hsection := evaluateIn_sectionAt? h q
    generalize root.sectionAt? q = old, root'.sectionAt? q = new at hsection
    cases hsection with
    | none => exact .none
    | some hsub => exact evaluateIn_get? hsub k

/-- A value of the tree is evaluated where it stands. -/
theorem evaluateAll_lookup? (h : root.evaluateAll = .ok root') {v : Value}
    (hv : root.lookup? p = some v) :
    ∃ v', root'.lookup? p = some v' ∧ evaluateValue root p v = .ok v' := by
  have hentry := evaluateAll_entryAt? h p
  unfold lookup? at hv ⊢
  generalize root.entryAt? p = old, root'.entryAt? p = new at hentry hv
  cases hentry with
  | none => cases hv
  | @some e e' heval =>
    cases hv
    exact ⟨e'.value, rfl, heval.2⟩

/-- A plain text stays what it is. -/
theorem evaluateAll_text (h : root.evaluateAll = .ok root')
    (hx : root.lookup? p = some (.scalar (.text x))) :
    root'.lookup? p = some (.scalar (.text x)) := by
  obtain ⟨v', hv', heval⟩ := evaluateAll_lookup? h hx
  cases heval
  exact hv'

/-- A template becomes the text that it has in the tree as it was. -/
theorem evaluateAll_template (h : root.evaluateAll = .ok root') {t : Template}
    (ht : root.lookup? p = some (.scalar (.template t))) :
    ∃ x, root'.lookup? p = some (.scalar (.text x)) ∧ root.templateText p t = .ok x := by
  obtain ⟨v', hv', heval⟩ := evaluateAll_lookup? h ht
  obtain ⟨x, hx, rfl⟩ := Except.map_eq_ok_iff.mp heval
  exact ⟨x, hv', hx⟩

/-- Whatever chain it was followed on, a reference comes to what the evaluated tree holds. -/
theorem evaluateAll_textAt? (h : root.evaluateAll = .ok root')
    (href : root.referenceText n chain p ref = .ok x) :
    root'.textAt? (ref.resolve p) = some x := by
  rcases of_referenceText_eq_ok href with htext | ⟨t, m, htemplate, -, hjoin⟩
  · rw [textAt?, evaluateAll_text h htext]
    rfl
  · -- the template there has been evaluated as well, on a chain of its own
    obtain ⟨y, hy, hjoin'⟩ := evaluateAll_template h htemplate
    have hxy : x = y :=
      Piece.joinTexts_unique (fun _ _ _ ha hb => referenceText_unique ha hb) hjoin hjoin'
    rw [textAt?, hy, hxy]
    rfl

/-! ## Cycles -/

/-- One template key refers to another: a reference in the template at `p` leads to `q`. -/
def Refers (root : Section) (p q : List String) : Prop :=
  ∃ t ref t', root.lookup? p = some (.scalar (.template t)) ∧ .reference ref ∈ t.pieces ∧
    ref.resolve p = q ∧ root.lookup? q = some (.scalar (.template t'))

/-- The key at `p` holds a template that has a text for the given fuel. -/
def EvaluatesWithin (root : Section) (n : Nat) (p : List String) : Prop :=
  ∃ t chain x, root.lookup? p = some (.scalar (.template t)) ∧
    Piece.joinTexts (root.referenceText n chain p) t.pieces = .ok x

/-- What a template refers to is evaluated with less fuel. -/
theorem EvaluatesWithin.refers (h : root.EvaluatesWithin n p) (hpq : root.Refers p q) :
    ∃ m < n, root.EvaluatesWithin m q := by
  obtain ⟨t, chain, x, ht, hjoin⟩ := h
  obtain ⟨t₁, ref, t', ht₁, hmem, rfl, ht'⟩ := hpq
  rw [ht] at ht₁
  cases ht₁
  obtain ⟨y, hy⟩ := Piece.exists_of_mem_of_joinTexts hjoin hmem
  rcases of_referenceText_eq_ok hy with htext | ⟨t₂, m, ht₂, hn, hjoin₂⟩
  · rw [ht'] at htext
    cases htext
  · exact ⟨m, by omega, t₂, _, y, ht₂, hjoin₂⟩

/-- So is what it refers to over several keys. -/
theorem EvaluatesWithin.transGen (h : root.EvaluatesWithin n p)
    (hpq : Relation.TransGen root.Refers p q) : ∃ m < n, root.EvaluatesWithin m q := by
  induction hpq with
  | single hstep => exact h.refers hstep
  | tail _ hstep ih =>
    obtain ⟨m, hm, hmid⟩ := ih
    obtain ⟨m', hm', hlast⟩ := hmid.refers hstep
    exact ⟨m', by omega, hlast⟩

/-- A template key that evaluates does not reach itself. -/
theorem EvaluatesWithin.not_cycle (h : root.EvaluatesWithin n p) :
    ¬ Relation.TransGen root.Refers p p := by
  intro hcycle
  -- going round once leads back to the same key with less fuel
  induction n using Nat.strongRecOn with
  | ind n ih =>
    obtain ⟨m, hm, hm'⟩ := h.transGen hcycle
    exact ih m hm hm'

/-! ## Evaluating again -/

mutual

/-- An evaluated section holds no template, so evaluating it changes nothing. -/
theorem evaluateIn_evaluated : ∀ (s : Section) {path : List String} {s' : Section},
    evaluateIn root path s = .ok s' → ∀ root₂ path₂, evaluateIn root₂ path₂ s' = .ok s'
  | ⟨name, ⟨entries⟩⟩, path, s', h, root₂, path₂ => by
    obtain ⟨out, hout, rfl⟩ := Except.map_eq_ok_iff.mp h
    rw [evaluateIn, evaluateEntries_evaluated entries hout root₂ path₂]
    rfl

/-- Evaluated entries are evaluated to themselves, in whatever tree. -/
theorem evaluateEntries_evaluated : ∀ (entries : List (String × Entry)) {path : List String}
    {out : List (String × Entry)}, evaluateEntries root path entries = .ok out →
      ∀ root₂ path₂, evaluateEntries root₂ path₂ out = .ok out
  | [], path, out, h, root₂, path₂ => by
    cases h
    rfl
  | (key, ⟨value, attrs⟩) :: entries, path, out, h, root₂, path₂ => by
    obtain ⟨v, rest, hv, hrest, rfl⟩ := evaluateEntries_cons_eq_ok h
    rw [evaluateEntries, evaluateValue_evaluated value hv root₂ (path₂ ++ [key]),
      evaluateEntries_evaluated entries hrest root₂ path₂]
    rfl

/-- An evaluated value is evaluated to itself, in whatever tree. -/
theorem evaluateValue_evaluated : ∀ (v : Value) {path : List String} {v' : Value},
    evaluateValue root path v = .ok v' → ∀ root₂ path₂, evaluateValue root₂ path₂ v' = .ok v'
  | .scalar (.text x), path, v', h, root₂, path₂ => by
    cases h
    rfl
  | .scalar (.template t), path, v', h, root₂, path₂ => by
    obtain ⟨x, -, rfl⟩ := Except.map_eq_ok_iff.mp h
    rfl
  | .subsection s, path, v', h, root₂, path₂ => by
    obtain ⟨s', hs', rfl⟩ := Except.map_eq_ok_iff.mp h
    rw [evaluateValue, evaluateIn_evaluated s hs' root₂ path₂]
    rfl

end

/-! ## The evaluated tree -/

/-- `after` is `before` with its templates resolved: nothing but templates has changed, and each of
them is now the text that it stands for in `after` itself. -/
structure Resolves (before after : Section) : Prop where
  layout_eq : ∀ p, (after.sectionAt? p).map layout = (before.sectionAt? p).map layout
  text : ∀ p x, before.lookup? p = some (.scalar (.text x)) →
    after.lookup? p = some (.scalar (.text x))
  template : ∀ p t, before.lookup? p = some (.scalar (.template t)) →
    ∃ x, after.lookup? p = some (.scalar (.text x)) ∧ t.textIn after p = some x

/-- Evaluation, when it succeeds, resolves the templates of a tree. The tree had no cycle of
references then, and evaluating the result once more changes nothing. -/
theorem evaluateAll_resolves (h : root.evaluateAll = .ok root') :
    Resolves root root' ∧ (∀ p, ¬ Relation.TransGen root.Refers p p) ∧
      root'.evaluateAll = .ok root' := by
  refine ⟨⟨evaluateAll_layout h, fun p x => evaluateAll_text h, fun p t ht => ?_⟩, ?_,
    evaluateIn_evaluated root h root' []⟩
  · obtain ⟨x, hx, htext⟩ := evaluateAll_template h ht
    refine ⟨x, hx, Fragment.textsWith_of_pieces ?_ t.fragments htext⟩
    exact fun ref y hy => evaluateAll_textAt? h hy
  · intro p hcycle
    -- a key on a cycle holds a template, and every template of the tree has been evaluated
    obtain ⟨q, ⟨t, -, -, ht, -⟩, -⟩ := Relation.TransGen.head'_iff.mp hcycle
    obtain ⟨x, -, htext⟩ := evaluateAll_template h ht
    exact EvaluatesWithin.not_cycle ⟨t, [], x, ht, htext⟩ hcycle

/-- A tree with a chain of references: `net:url` leads to `net:host` and that to `domain`. -/
def linked : Section :=
  ⟨none, ⟨[
    ("port", ⟨.scalar (.text "80"), {}⟩),
    ("net", ⟨.subsection ⟨some "net", ⟨[
      ("url", ⟨.scalar (.template ⟨[.reference ⟨false, ["host"]⟩, .literal ":",
        .nested [.reference ⟨true, ["port"]⟩, .literal "/"]]⟩), {}⟩),
      ("host", ⟨.scalar (.template ⟨[.literal "www.", .reference ⟨true, ["domain"]⟩]⟩), {}⟩)]⟩⟩,
      {}⟩),
    ("domain", ⟨.scalar (.text "org"), {}⟩)]⟩⟩

/-- The same tree with its templates resolved. -/
def linkedEvaluated : Section :=
  ⟨none, ⟨[
    ("port", ⟨.scalar (.text "80"), {}⟩),
    ("net", ⟨.subsection ⟨some "net", ⟨[
      ("url", ⟨.scalar (.text "www.org:80/"), {}⟩),
      ("host", ⟨.scalar (.text "www.org"), {}⟩)]⟩⟩, {}⟩),
    ("domain", ⟨.scalar (.text "org"), {}⟩)]⟩⟩

/-- In the evaluated tree `net:url` has become a text, through a relative and an absolute reference
and a nested template. -/
theorem evaluateAll_resolves_linked :
    linked.evaluateAll = .ok linkedEvaluated ∧ Resolves linked linkedEvaluated ∧
      (∀ p, ¬ Relation.TransGen linked.Refers p p) ∧
      linkedEvaluated.evaluateAll = .ok linkedEvaluated :=
  ⟨rfl, evaluateAll_resolves rfl⟩

end Section

end LayeredConfig
