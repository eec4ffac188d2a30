import LayeredConfig.Proofs.Section.Evaluation
import LayeredConfig.Proofs.Section.Nodes
import LayeredConfig.Proofs.Section.Temporary

/-!
# Trees with other attributes

`mapAttrs f` replaces the attributes of every key of a tree and leaves names, keys, values and
orders alone. Granting permission is of this kind. Everything that happens to a tree once its
document is complete goes along with such a replacement: references are looked up by values only,
and what is temporary depends on one flag. And the plain mapping of a tree does not see it at all.
-/

namespace LayeredConfig.Section

variable {f g : KeyAttrs → KeyAttrs} {s root : Section} {k : String} {p path : List String}

mutual

/-- Replaces the attributes of all keys of a section and of the sections nested in it. -/
def mapAttrs (f : KeyAttrs → KeyAttrs) : Section → Section
  | ⟨name, ⟨entries⟩⟩ => ⟨name, ⟨mapAttrsEntries f entries⟩⟩

/-- Replaces the attributes of some entries and of all keys below them. -/
def mapAttrsEntries (f : KeyAttrs → KeyAttrs) : List (String × Entry) → List (String × Entry)
  | [] => []
  | (key, ⟨value, attrs⟩) :: entries =>
    (key, ⟨mapAttrsValue f value, f attrs⟩) :: mapAttrsEntries f entries

/-- Replaces the attributes of all keys inside a value. -/
def mapAttrsValue (f : KeyAttrs → KeyAttrs) : Value → Value
  | .scalar v => .scalar v
  | .subsection s => .subsection (mapAttrs f s)

end

/-- An entry with other attributes, and below it too. -/
def mapAttrsEntry (f : KeyAttrs → KeyAttrs) (e : Entry) : Entry :=
  ⟨mapAttrsValue f e.value, f e.attrs⟩

/-- The entries of a tree with other attributes are those of the tree, each with its attributes
replaced. -/
theorem mapAttrs_eq (f : KeyAttrs → KeyAttrs) (s : Section) :
    s.mapAttrs f = { s with entries := s.entries.map (mapAttrsEntry f) } := by
  obtain ⟨name, ⟨entries⟩⟩ := s
  have hentries : mapAttrsEntries f entries =
      ((OrderedMap.mk entries).map (mapAttrsEntry f)).toList := by
    induction entries with
    | nil => rfl
    | cons entry entries ih =>
      obtain ⟨key, value, attrs⟩ := entry
      rw [mapAttrsEntries, ih]
      rfl
  rw [mapAttrs, hentries]

/-! ## Look-ups -/

/-- An entry is looked up with its attributes replaced. -/
theorem get?_mapAttrs (f : KeyAttrs → KeyAttrs) (s : Section) (k : String) :
    (s.mapAttrs f).entries.get? k = (s.entries.get? k).map (mapAttrsEntry f) := by
  rw [mapAttrs_eq]
  exact OrderedMap.get?_map s.entries (mapAttrsEntry f) k

/-- A nested section is found with the attributes in it replaced. -/
theorem subsection?_mapAttrs (f : KeyAttrs → KeyAttrs) (s : Section) (k : String) :
    (s.mapAttrs f).subsection? k = (s.subsection? k).map (mapAttrs f) := by
  unfold subsection? get?
  rw [get?_mapAttrs]
  cases s.entries.get? k with
  | none => rfl
  | some e =>
    obtain ⟨value, attrs⟩ := e
    cases value <;> rfl

/-- So is a section at any path. -/
theorem sectionAt?_mapAttrs (f : KeyAttrs → KeyAttrs) (s : Section) (p : List String) :
    (s.mapAttrs f).sectionAt? p = (s.sectionAt? p).map (mapAttrs f) := by
  induction p generalizing s with
  | nil => rfl
  | cons k p ih =>
    rw [sectionAt?_cons, sectionAt?_cons, subsection?_mapAttrs]
    cases s.subsection? k with
    | none => rfl
    | some sub => exact ih sub

/-- So is an entry at any path. -/
theorem entryAt?_mapAttrs (f : KeyAttrs → KeyAttrs) (s : Section) (p : List String) :
    (s.mapAttrs f).entryAt? p = (s.entryAt? p).map (mapAttrsEntry f) := by
  rcases List.eq_nil_or_concat' p with rfl | ⟨q, k, rfl⟩
  · rfl
  · rw [entryAt?_concat, entryAt?_concat, sectionAt?_mapAttrs]
    cases s.sectionAt? q with
    | none => rfl
    | some sub => exact get?_mapAttrs f sub k

/-- So is a value at any path. -/
theorem lookup?_mapAttrs (f : KeyAttrs → KeyAttrs) (s : Section) (p : List String) :
    (s.mapAttrs f).lookup? p = (s.lookup? p).map (mapAttrsValue f) := by
  rw [lookup?, lookup?, entryAt?_mapAttrs, Option.map_map, Option.map_map]
  rfl

/-! ## Writes -/

/-- Inserting an entry with its attributes replaced is inserting it and then replacing all
attributes. -/
theorem insert_mapAttrs (f : KeyAttrs → KeyAttrs) (s : Section) (key : String) (e : Entry) :
    { s.mapAttrs f with
      entries := (s.mapAttrs f).entries.insert key (mapAttrsEntry f e) } =
      ({ s with entries := s.entries.insert key e } : Section).mapAttrs f := by
  rw [mapAttrs_eq, mapAttrs_eq, OrderedMap.map_insert]

/-- Changes of an entry that correspond under the replacement give sections that do. -/
theorem modify_mapAttrs (h h' : Entry → Entry)
    (hf : ∀ e, mapAttrsEntry f (h e) = h' (mapAttrsEntry f e)) (s : Section) (key : String) :
    { s.mapAttrs f with entries := (s.mapAttrs f).entries.modify key h' } =
      ({ s with entries := s.entries.modify key h } : Section).mapAttrs f := by
  rw [mapAttrs_eq, mapAttrs_eq, OrderedMap.map_modify _ hf]

/-- Changes of attributes that correspond under the replacement give sections that do. -/
theorem modifyAttrs_mapAttrs (f h h' : KeyAttrs → KeyAttrs)
    (hf : ∀ attrs, f (h attrs) = h' (f attrs)) (s : Section) (key : String) :
    (s.mapAttrs f).modifyAttrs key h' = (s.modifyAttrs key h).mapAttrs f :=
  modify_mapAttrs (fun e => { e with attrs := h e.attrs }) (fun e => { e with attrs := h' e.attrs })
    (fun e => congrArg (Entry.mk (mapAttrsValue f e.value)) (hf e.attrs)) s key

/-- A change of the section at the end of a path. -/
theorem updateAt_mapAttrs {ε ε' : Type} (h : Section → Except ε Section)
    (h' : Section → Except ε' Section)
    (hf : ∀ s, Except.Corresponds (mapAttrs f) (h s) (h' (s.mapAttrs f))) (s : Section)
    (path : List String) :
    Option.Rel (Except.Corresponds (mapAttrs f)) (s.updateAt path h)
      ((s.mapAttrs f).updateAt path h') := by
  induction path generalizing s with
  | nil => exact .some (hf s)
  | cons name path ih =>
    rw [updateAt, updateAt, subsection?_mapAttrs]
    cases s.subsection? name with
    | none => exact .none
    | some sub =>
      -- the two updates below either both find their section or both do not
      have hsub := ih sub
      simp only [Option.map_some]
      generalize sub.updateAt path h = x, (sub.mapAttrs f).updateAt path h' = y at hsub
      cases hsub with
      | none => exact .none
      | some hxy =>
        exact .some (hxy.map fun sub' =>
          modify_mapAttrs (fun e => { e with value := .subsection sub' }) _ (fun _ => rfl) s name)

/-! ## Replacing twice, and granting permission -/

/-- Two replacements are one. -/
theorem mapAttrs_mapAttrs (f g : KeyAttrs → KeyAttrs) (s : Section) :
    (s.mapAttrs f).mapAttrs g = s.mapAttrs fun attrs => g (f attrs) := by
  induction s using nested_induction with
  | step s ih =>
    rw [mapAttrs_eq g, mapAttrs_eq f, mapAttrs_eq _ s, OrderedMap.map_map]
    refine congrArg (Section.mk s.name) (OrderedMap.map_congr fun entry hentry => ?_)
    obtain ⟨key, value, attrs⟩ := entry
    cases value with
    | scalar v => rfl
    | subsection sub =>
      simp only [mapAttrsEntry, mapAttrsValue]
      rw [ih key sub attrs hentry]

/-- Attributes with or without the permission to overwrite the key. -/
def grant (writable : Bool) (attrs : KeyAttrs) : KeyAttrs :=
  { attrs with flags := { attrs.flags with writable } }

mutual

/-- Granting permission in a whole tree replaces the attributes of each of its keys. -/
theorem setWritableDeep_eq_mapAttrs (writable : Bool) :
    ∀ s : Section, s.setWritableDeep writable = s.mapAttrs (grant writable)
  | ⟨name, ⟨entries⟩⟩ => by
    rw [setWritableDeep, mapAttrs, setWritableEntries_eq_mapAttrs]

/-- So does granting it in some entries. -/
theorem setWritableEntries_eq_mapAttrs (writable : Bool) :
    ∀ entries, setWritableEntries writable entries = mapAttrsEntries (grant writable) entries
  | [] => rfl
  | (key, ⟨value, attrs⟩) :: entries => by
    rw [setWritableEntries, mapAttrsEntries, setWritableEntries_eq_mapAttrs,
      setWritableValue_eq_mapAttrs]
    rfl

/-- So does granting it in a value. -/
theorem setWritableValue_eq_mapAttrs (writable : Bool) :
    ∀ v, setWritableValue writable v = mapAttrsValue (grant writable) v
  | .scalar v => rfl
  | .subsection s => by
    rw [setWritableValue, mapAttrsValue, setWritableDeep_eq_mapAttrs]

end

/-! ## Immediate evaluation -/

mutual

/-- Capturing a fragment reads no attributes. -/
theorem captureFragment_mapAttrs (f : KeyAttrs → KeyAttrs) (root : Section) (key : List String) :
    ∀ fragment, Except.Corresponds id (captureFragment root key fragment)
      (captureFragment (root.mapAttrs f) key fragment)
  | .literal text => .ok (Fragment.literal text)
  | .reference ref => by
    rw [captureFragment, captureFragment, lookup?_mapAttrs]
    cases root.lookup? (ref.resolve key) with
    | none => exact .error _ _
    | some value =>
      cases value with
      | subsection sub => exact .error _ _
      | scalar v =>
        cases v with
        | text x => exact .ok (Fragment.literal x)
        | template t => exact .ok (Fragment.nested t.fragments)
  | .nested fragments => (captureFragments_mapAttrs f root key fragments).map fun _ => rfl

/-- Capturing fragments reads no attributes. -/
theorem captureFragments_mapAttrs (f : KeyAttrs → KeyAttrs) (root : Section) (key : List String) :
    ∀ fragments, Except.Corresponds id (captureFragments root key fragments)
      (captureFragments (root.mapAttrs f) key fragments)
  | [] => .ok []
  | fragment :: fragments =>
    (captureFragment_mapAttrs f root key fragment).bind fun fragment' _ =>
      (captureFragments_mapAttrs f root key fragments).bind fun fragments' _ =>
        .ok (fragment' :: fragments')

end

/-- Evaluating an immediate value reads no attributes. -/
theorem evaluateImmediate_mapAttrs (f : KeyAttrs → KeyAttrs) (root : Section) (key : List String)
    (t : Template) :
    Except.Corresponds id (root.evaluateImmediate key t)
      ((root.mapAttrs f).evaluateImmediate key t) :=
  (captureFragments_mapAttrs f root key t.fragments).map fun _ => rfl

/-! ## Completing a tree -/

mutual

/-- The keys of templates do not depend on attributes. -/
theorem templateKeys_mapAttrs (f : KeyAttrs → KeyAttrs) (path : List String) :
    ∀ s : Section, templateKeys path (s.mapAttrs f) = templateKeys path s
  | ⟨name, ⟨entries⟩⟩ => by
    rw [mapAttrs, templateKeys, templateKeys, templateKeysOfEntries_mapAttrs]

/-- Nor do those of some entries. -/
theorem templateKeysOfEntries_mapAttrs (f : KeyAttrs → KeyAttrs) (path : List String) :
    ∀ entries, templateKeysOfEntries path (mapAttrsEntries f entries) =
      templateKeysOfEntries path entries
  | [] => rfl
  | (key, ⟨value, attrs⟩) :: entries => by
    rw [mapAttrsEntries, templateKeysOfEntries, templateKeysOfEntries,
      templateKeysOfEntries_mapAttrs, templateKeysOfValue_mapAttrs]

/-- Nor do those of a value. -/
theorem templateKeysOfValue_mapAttrs (f : KeyAttrs → KeyAttrs) (path : List String) :
    ∀ v, templateKeysOfValue path (mapAttrsValue f v) = templateKeysOfValue path v
  | .scalar v => rfl
  | .subsection s => by
    rw [mapAttrsValue, templateKeysOfValue, templateKeysOfValue, templateKeys_mapAttrs]

end

/-- Pieces are joined alike where references have the same texts. -/
theorem joinTexts_corresponds {ε ε' : Type} {resolve : Reference → Except ε String}
    {resolve' : Reference → Except ε' String}
    (h : ∀ ref, Except.Corresponds id (resolve ref) (resolve' ref)) (pieces : List Piece) :
    Except.Corresponds id (Piece.joinTexts resolve pieces) (Piece.joinTexts resolve' pieces) := by
  refine Except.Corresponds.map (φ := id) ?_ fun _ => rfl
  induction pieces with
  | nil => exact .ok []
  | cons piece pieces ih =>
    rw [List.mapM_cons, List.mapM_cons]
    refine Except.Corresponds.bind (φ := id) ?_ fun text _ => ih.bind fun texts _ => .ok _
    cases piece with
    | literal text => exact .ok text
    | reference ref => exact h ref

/-- The text that a reference stands for does not depend on attributes. -/
theorem referenceText_mapAttrs (f : KeyAttrs → KeyAttrs) (root : Section) (n : Nat)
    (chain key : List String) (ref : Reference) :
    Except.Corresponds id (root.referenceText n chain key ref)
      ((root.mapAttrs f).referenceText n chain key ref) := by
  induction n generalizing chain key ref with
  | zero => exact .error _ _
  | succ n ih =>
    rw [referenceText, referenceText, lookup?_mapAttrs]
    split
    · -- the chain of keys is the same in both trees, so that a cycle is found in both
      exact .error _ _
    · cases root.lookup? (ref.resolve key) with
      | none => exact .error _ _
      | some value =>
        cases value with
        | subsection sub => exact .error _ _
        | scalar v =>
          cases v with
          | text x => exact .ok x
          -- the references of a template are further down the chain
          | template t => exact joinTexts_corresponds (fun ref' => ih _ _ ref') t.pieces

/-- The text of a template does not depend on attributes. -/
theorem templateText_mapAttrs (f : KeyAttrs → KeyAttrs) (root : Section) (key : List String)
    (t : Template) :
    Except.Corresponds id (root.templateText key t) ((root.mapAttrs f).templateText key t) := by
  rw [templateText, templateText, templateKeys_mapAttrs]
  exact joinTexts_corresponds (fun ref => referenceText_mapAttrs f root _ _ _ ref) t.pieces

mutual

/-- Evaluating a section leaves the replaced attributes as they are. -/
theorem evaluateIn_mapAttrs (f : KeyAttrs → KeyAttrs) (root : Section) (path : List String) :
    ∀ s : Section, Except.Corresponds (mapAttrs f) (evaluateIn root path s)
      (evaluateIn (root.mapAttrs f) path (s.mapAttrs f))
  | ⟨_, ⟨entries⟩⟩ =>
    (evaluateEntries_mapAttrs f root path entries).map fun _ => rfl

/-- Evaluating entries leaves the replaced attributes as they are. -/
theorem evaluateEntries_mapAttrs (f : KeyAttrs → KeyAttrs) (root : Section)
    (path : List String) : ∀ entries, Except.Corresponds (mapAttrsEntries f)
      (evaluateEntries root path entries)
      (evaluateEntries (root.mapAttrs f) path (mapAttrsEntries f entries))
  | [] => .ok []
  | (key, ⟨value, attrs⟩) :: entries =>
    (evaluateValue_mapAttrs f root (path ++ [key]) value).bind fun value' _ =>
      (evaluateEntries_mapAttrs f root path entries).bind fun entries' _ =>
        .ok ((key, ⟨value', attrs⟩) :: entries')

/-- Evaluating a value leaves the replaced attributes as they are. -/
theorem evaluateValue_mapAttrs (f : KeyAttrs → KeyAttrs) (root : Section) (path : List String) :
    ∀ v, Except.Corresponds (mapAttrsValue f) (evaluateValue root path v)
      (evaluateValue (root.mapAttrs f) path (mapAttrsValue f v))
  | .scalar (.text x) => .ok (Value.scalar (.text x))
  | .scalar (.template t) => (templateText_mapAttrs f root path t).map fun _ => rfl
  | .subsection s => (evaluateIn_mapAttrs f root path s).map fun _ => rfl

end

mutual

/-- Dropping the temporary keys of a tree commutes with a replacement that keeps the temporary
marks. -/
theorem dropTemporaryDeep_mapAttrs
    (hf : ∀ attrs, (f attrs).flags.temporary = attrs.flags.temporary) :
    ∀ s : Section, (s.mapAttrs f).dropTemporaryDeep = s.dropTemporaryDeep.mapAttrs f
  | ⟨name, ⟨entries⟩⟩ => by
    rw [mapAttrs, dropTemporaryDeep, dropTemporaryDeep, mapAttrs,
      dropTemporaryEntries_mapAttrs hf entries]

/-- So does dropping them from some entries. -/
theorem dropTemporaryEntries_mapAttrs
    (hf : ∀ attrs, (f attrs).flags.temporary = attrs.flags.temporary) :
    ∀ entries, dropTemporaryEntries (mapAttrsEntries f entries) =
      mapAttrsEntries f (dropTemporaryEntries entries)
  | [] => rfl
  | (key, ⟨value, attrs⟩) :: entries => by
    rw [mapAttrsEntries, dropTemporaryEntries, dropTemporaryEntries, hf,
      dropTemporaryEntries_mapAttrs hf entries, dropTemporaryValue_mapAttrs hf value]
    split <;> rfl

/-- So does dropping them from a value. -/
theorem dropTemporaryValue_mapAttrs
    (hf : ∀ attrs, (f attrs).flags.temporary = attrs.flags.temporary) :
    ∀ v, dropTemporaryValue (mapAttrsValue f v) = mapAttrsValue f (dropTemporaryValue v)
  | .scalar v => rfl
  | .subsection s => by
    rw [mapAttrsValue, dropTemporaryValue, dropTemporaryValue, mapAttrsValue,
      dropTemporaryDeep_mapAttrs hf s]

end

/-- The plain mapping of a tree does not show its attributes. -/
theorem toPlain_mapAttrs (f : KeyAttrs → KeyAttrs) (s : Section) :
    (s.mapAttrs f).toPlain = s.toPlain := by
  induction s using nested_induction with
  | step s ih =>
    rw [toPlain_eq, toPlain_eq, mapAttrs_eq, OrderedMap.map_map]
    -- the two mappings are compared key by key
    refine OrderedMap.map_congr fun entry hentry => ?_
    obtain ⟨key, value, attrs⟩ := entry
    cases value with
    | scalar v => rfl
    | subsection sub => exact congrArg PlainValue.mapping (ih key sub attrs hentry)

end LayeredConfig.Section
