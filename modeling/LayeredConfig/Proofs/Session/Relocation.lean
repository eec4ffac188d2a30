import LayeredConfig.Proofs.Section.Attributes
import LayeredConfig.Proofs.Session.Frames

/-!
# Origins only go along

What an item does to a document does not depend on the origins that are recorded in its tree. So
when every origin is replaced by `g`, those in the tree and that of the item, the item succeeds or
fails as before, and the origins of the new tree are replaced by `g`.
-/

namespace LayeredConfig

/-- A history with other origins. -/
def Provenance.mapOrigins (g : Origin → Origin) (history : Provenance) : Provenance :=
  { origins := history.origins.map g }

/-- Attributes with other origins. -/
def KeyAttrs.mapOrigins (g : Origin → Origin) (attrs : KeyAttrs) : KeyAttrs :=
  { attrs with history := attrs.history.mapOrigins g }

/-- The outcome of a merge with another result. -/
def Merged.map {α β : Type} (f : α → β) (m : Merged α) : Merged β :=
  ⟨f m.result, m.conflict⟩

variable {g : Origin → Origin}

/-- A history that grows by an origin has the replaced origin at its end. -/
theorem Provenance.mapOrigins_push (g : Origin → Origin) (history : Provenance) (origin : Origin) :
    (history.push origin).mapOrigins g = (history.mapOrigins g).push (g origin) := by
  rw [mapOrigins, push, List.map_append]
  rfl

/-- The flags of the source stay and the histories are joined, whatever the origins in them are. -/
theorem Section.overlay_mapOrigins (g : Origin → Origin) (dst src : KeyAttrs) :
    Section.overlay (dst.mapOrigins g) (src.mapOrigins g) =
      (Section.overlay dst src).mapOrigins g := by
  rw [overlay, overlay, KeyAttrs.mapOrigins, KeyAttrs.mapOrigins, KeyAttrs.mapOrigins]
  refine congrArg (KeyAttrs.mk src.flags) (congrArg Provenance.mk ?_)
  exact (List.map_append (f := g)).symm

namespace Section

/-- A tree with other origins. -/
abbrev mapOrigins (g : Origin → Origin) (s : Section) : Section :=
  s.mapAttrs (KeyAttrs.mapOrigins g)

variable {s sub : Section} {key name : String} {path : List String}

/-! ## Writes -/

/-- Writing a key asks for its protection only, and keeps its history. -/
theorem set_mapOrigins (g : Origin → Origin) (s : Section) (key : String) (value : Value) :
    (s.mapOrigins g).set key (mapAttrsValue (KeyAttrs.mapOrigins g) value) =
      (s.set key value).map (mapOrigins g) := by
  have hattrs : (s.mapOrigins g).attrs? key = (s.attrs? key).map (KeyAttrs.mapOrigins g) := by
    rw [attrs?, get?_mapAttrs, attrs?, Option.map_map, Option.map_map]
    rfl
  have hprotected : (s.mapOrigins g).isProtected key = s.isProtected key := by
    rw [isProtected, hattrs, Option.any_map]
    rfl
  have hhistory :
      (((s.mapOrigins g).attrs? key).map fun attrs : KeyAttrs => attrs.history).getD {} =
        (((s.attrs? key).map fun attrs : KeyAttrs => attrs.history).getD {}).mapOrigins g := by
    rw [hattrs]
    cases s.attrs? key <;> rfl
  -- Both sides branch on the protection of the key, which is the same.
  rw [set, set, hprotected]
  split
  · rfl
  · dsimp only
    rw [hhistory]
    exact congrArg Except.ok (insert_mapAttrs (KeyAttrs.mapOrigins g) s key
      ⟨value, { history := ((s.attrs? key).map fun attrs : KeyAttrs => attrs.history).getD {} }⟩)

/-- The origin of a definition is recorded in a tree with replaced origins as its replacement. -/
theorem record_mapOrigins (g : Origin → Origin) (s : Section) (key : String) (origin : Origin) :
    (s.mapOrigins g).record key (g origin) = (s.record key origin).mapOrigins g := by
  refine modifyAttrs_mapAttrs (KeyAttrs.mapOrigins g)
    (fun attrs => { attrs with history := attrs.history.push origin }) _ (fun attrs => ?_) s key
  rw [KeyAttrs.mapOrigins, Provenance.mapOrigins_push]
  rfl

/-- Flags and origins are changed independently of each other. -/
theorem modifyFlags_mapOrigins (g : Origin → Origin) (s : Section) (key : String)
    (h : Flags → Flags) :
    (s.mapOrigins g).modifyFlags key h = (s.modifyFlags key h).mapOrigins g :=
  modifyAttrs_mapAttrs (KeyAttrs.mapOrigins g) (fun attrs => { attrs with flags := h attrs.flags })
    _ (fun _ => rfl) s key

/-- A key is defined with the replaced origin where it was defined with the origin itself. -/
theorem setAt_mapOrigins (g : Origin → Origin) (s : Section) (key : String) (value : Value)
    (origin : Origin) :
    (s.mapOrigins g).setAt key (mapAttrsValue (KeyAttrs.mapOrigins g) value) (g origin) =
      (s.setAt key value origin).map (mapOrigins g) := by
  rw [setAt, setAt, set_mapOrigins]
  cases s.set key value with
  | error e => rfl
  | ok s' =>
    exact congrArg Except.ok (record_mapOrigins g s' key origin)

/-! ## Merges -/

mutual

/-- A merge of trees with replaced origins stops at the same key, with the same part merged. -/
theorem mergeInto_mapOrigins (g : Origin → Origin) (dst : Section) :
    ∀ src : Section, (dst.mapOrigins g).mergeInto (src.mapOrigins g) =
      (dst.mergeInto src).map (mapOrigins g)
  | ⟨name, ⟨entries⟩⟩ => by
    rw [mapOrigins, mapOrigins, mapAttrs_eq _ dst, mapAttrs, mergeInto, mergeInto,
      mergeEntries_mapOrigins, Merged.map, Merged.map, mapOrigins, mapAttrs_eq]

/-- The entries of the source come in one after the other, up to the first conflict in both
cases. -/
theorem mergeEntries_mapOrigins (g : Origin → Origin) : ∀ (dst : OrderedMap Entry)
    (entries : List (String × Entry)),
    mergeEntries (dst.map (mapAttrsEntry (KeyAttrs.mapOrigins g)))
        (mapAttrsEntries (KeyAttrs.mapOrigins g) entries) =
      (mergeEntries dst entries).map (·.map (mapAttrsEntry (KeyAttrs.mapOrigins g)))
  | dst, [] => rfl
  | dst, (key, ⟨value, attrs⟩) :: entries => by
    rw [mapAttrsEntries, mergeEntries, mergeEntries, OrderedMap.get?_map]
    cases dst.get? key with
    | none =>
      -- a new key is copied, with its history
      have hinsert := OrderedMap.map_insert dst (mapAttrsEntry (KeyAttrs.mapOrigins g)) key
        ⟨value, attrs⟩
      exact (congrArg (mergeEntries · _) hinsert.symm).trans
        (mergeEntries_mapOrigins g _ entries)
    | some old =>
      simp only [Option.map_some, mergeEntry_mapOrigins g key old value attrs, Merged.map]
      have hinsert := OrderedMap.map_insert dst (mapAttrsEntry (KeyAttrs.mapOrigins g)) key
        (mergeEntry key old value attrs).result
      cases (mergeEntry key old value attrs).conflict with
      | none =>
        exact (congrArg (mergeEntries · _) hinsert.symm).trans
          (mergeEntries_mapOrigins g _ entries)
      | some e => rw [hinsert]

/-- Whether an entry conflicts with the one that is there depends on shapes and flags. Nested
sections are merged in turn. -/
theorem mergeEntry_mapOrigins (g : Origin → Origin) (key : String) (old : Entry) :
    ∀ (value : Value) (attrs : KeyAttrs),
      mergeEntry key (mapAttrsEntry (KeyAttrs.mapOrigins g) old)
          (mapAttrsValue (KeyAttrs.mapOrigins g) value) (attrs.mapOrigins g) =
        (mergeEntry key old value attrs).map (mapAttrsEntry (KeyAttrs.mapOrigins g))
  | .scalar v, attrs => by
    have hprotected : (mapAttrsEntry (KeyAttrs.mapOrigins g) old).attrs.isProtected =
      old.attrs.isProtected := rfl
    rw [mapAttrsValue, mergeEntry, mergeEntry, hprotected]
    split
    · rfl
    · rw [mapAttrsEntry, overlay_mapOrigins]
      rfl
  | .subsection s, attrs => by
    have hprotected : (mapAttrsEntry (KeyAttrs.mapOrigins g) old).attrs.isProtected =
      old.attrs.isProtected := rfl
    rw [mapAttrsValue, mergeEntry, mergeEntry, hprotected]
    -- Only two sections are merged in turn. A section over a scalar takes its place.
    obtain ⟨oldValue, oldAttrs⟩ := old
    cases oldValue with
    | scalar v =>
      simp only [mapAttrsEntry, mapAttrsValue]
      split
      · rfl
      · rw [overlay_mapOrigins]
        rfl
    | subsection d =>
      simp only [mapAttrsEntry, mapAttrsValue]
      split
      · rfl
      · rw [overlay_mapOrigins, mergeInto_mapOrigins g d s, Merged.map]
        cases (d.mergeInto s).conflict <;> rfl

end

/-- Two trees with replaced origins merge into the result with replaced origins, or not at all. -/
theorem merge_mapOrigins (g : Origin → Origin) (dst src : Section) :
    (dst.mapOrigins g).merge (src.mapOrigins g) = (dst.merge src).map (mapOrigins g) := by
  rw [merge, merge, mergeInto_mapOrigins, Merged.map]
  dsimp only
  cases (dst.mergeInto src).conflict <;> rfl

/-- Making keys writable, all the way down, leaves histories alone. -/
theorem setWritableDeep_mapOrigins (g : Origin → Origin) (writable : Bool) (s : Section) :
    (s.mapOrigins g).setWritableDeep writable = (s.setWritableDeep writable).mapOrigins g := by
  rw [setWritableDeep_eq_mapAttrs, setWritableDeep_eq_mapAttrs, mapOrigins, mapOrigins,
    mapAttrs_mapAttrs, mapAttrs_mapAttrs]
  rfl

end Section

/-- An origin as it is when one more document waits outside. -/
def Origin.under (pos : SourcePos) (origin : Origin) : Origin :=
  { origin with trail := pos :: origin.trail }

namespace Draft

/-- A document with other origins in its tree. -/
def mapOrigins (g : Origin → Origin) (d : Draft) : Draft :=
  { d with root := d.root.mapOrigins g }

/-- The open section is the same. -/
@[simp] theorem sections_mapOrigins (g : Origin → Origin) (d : Draft) :
    (d.mapOrigins g).sections = d.sections := rfl

/-- The tree of the draft is the one in which the origins are replaced. -/
@[simp] theorem root_mapOrigins (g : Origin → Origin) (d : Draft) :
    (d.mapOrigins g).root = d.root.mapOrigins g := rfl

/-- The document is the same. -/
@[simp] theorem path_mapOrigins (g : Origin → Origin) (d : Draft) :
    (d.mapOrigins g).path = d.path := rfl

/-- What commutes with replacing origins in a section does so in the open section of a draft. An
error may name another origin. -/
theorem writeOpen_mapOrigins {h h' : Section → Except SectionError Section}
    (hf : ∀ s, h' (s.mapOrigins g) = (h s).map (Section.mapOrigins g)) (d : Draft)
    (origin origin' : Origin) :
    Except.Corresponds (mapOrigins g) (d.writeOpen origin h)
      ((d.mapOrigins g).writeOpen origin' h') := by
  have hupdate := Section.updateAt_mapAttrs
    (fun s => (h s).mapError (ParseError.writeProtection · origin))
    (fun s => (h' s).mapError (ParseError.writeProtection · origin'))
    (fun s => (Except.Corresponds.of_eq_map (hf s)).mapError _ _) d.root d.sections
  unfold writeOpen updateOpen
  rw [root_mapOrigins, sections_mapOrigins]
  -- Both updates follow the path of the open section, so that it leads somewhere in both trees or
  -- in neither.
  generalize d.root.updateAt d.sections _ = x, (d.root.mapOrigins g).updateAt d.sections _ = y
    at hupdate
  cases hupdate with
  | none => exact .error _ _
  | some hxy => exact hxy.map fun _ => rfl

/-- A header finds the section that is there, or makes one, whatever the origins are. -/
theorem enter_mapOrigins (g : Origin → Origin) (s : Section) (name : String) (origin : Origin) :
    enter (s.mapOrigins g) name (g origin) = (enter s name origin).map (Section.mapOrigins g) := by
  have hget := Section.get?_mapAttrs (KeyAttrs.mapOrigins g) s name
  by_cases hs : (s.entries.get? name).any (fun o => o.value.isSubsection) = true
  · -- a section of this name is there already: its history grows
    obtain ⟨⟨value, attrs⟩, hold, hvalue⟩ := (Option.any_eq_true _ _).mp hs
    obtain ⟨sub, rfl⟩ := Value.isSubsection_iff.mp hvalue
    rw [hold] at hget
    have hfinal : (attrs.mapOrigins g).flags.final = attrs.flags.final := rfl
    rw [enter_of_subsection hold, enter_of_subsection hget]
    dsimp only
    rw [hfinal]
    split
    · rfl
    · refine congrArg Except.ok (Section.modifyAttrs_mapAttrs (KeyAttrs.mapOrigins g)
        (reentered origin) _ (fun attrs => ?_) s name)
      rw [KeyAttrs.mapOrigins, reentered, Provenance.mapOrigins_push]
      rfl
  · -- an empty section is written
    rw [Bool.not_eq_true] at hs
    rw [enter_of_noSection hs, enter_of_noSection]
    · exact Section.setAt_mapOrigins g s name (.subsection (.named name)) origin
    · rw [hget, Option.any_map, ← hs]
      refine congrArg (Option.any · _) (funext fun e => ?_)
      obtain ⟨value, attrs⟩ := e
      cases value <;> rfl

/-! ## Items -/

/-- A header does the same one document further in, where all origins have one more frame. -/
theorem applyHeader_mapOrigins (d : Draft) (w : Frame) (frames : List Frame)
    (offset opening closing : Nat) (name : String) :
    Except.Corresponds (mapOrigins (Origin.under w.position))
      (d.applyHeader frames offset opening closing name)
      ((d.mapOrigins (Origin.under w.position)).applyHeader (w :: frames) offset opening closing
        name) := by
  unfold applyHeader
  rw [sections_mapOrigins]
  split
  · exact .error _ _
  · split
    · exact .error _ _
    · refine (writeOpen_mapOrigins (fun s => ?_) _ _ _).map fun _ => rfl
      exact enter_mapOrigins (Origin.under w.position) s name
        ({ d with sections := d.sections.take (opening - 1) }.origin frames offset)

/-- The value that an assignment stores does not come from origins. -/
theorem storedValue_mapOrigins (g : Origin → Origin) (d : Draft) (origin origin' : Origin)
    (key : String) (op : AssignOp) (value : Scalar) :
    Except.Corresponds id (d.storedValue origin key op value)
      ((d.mapOrigins g).storedValue origin' key op value) := by
  unfold storedValue
  split
  · exact (Section.evaluateImmediate_mapAttrs _ d.root _ _).mapError _ _
  · exact .ok value

/-- An assignment does the same one document further in. -/
theorem applyAssign_mapOrigins (d : Draft) (w : Frame) (frames : List Frame) (offset : Nat)
    (marker : Option Marker) (key : String) (op : AssignOp) (raw : String) :
    Except.Corresponds (mapOrigins (Origin.under w.position))
      (d.applyAssign frames offset marker key op raw)
      ((d.mapOrigins (Origin.under w.position)).applyAssign (w :: frames) offset marker key op
        raw) := by
  unfold applyAssign
  refine Except.Corresponds.bind (φ := id) ?_ fun value _ => ?_
  · -- the value is parsed before the draft is looked at
    cases Template.parse raw with
    | ok value => exact .ok value
    | error e => exact .error _ _
  · refine (storedValue_mapOrigins _ d _ _ key op value).bind fun stored _ => ?_
    refine writeOpen_mapOrigins (fun s => ?_) d _ _
    have hset := Section.setAt_mapOrigins (Origin.under w.position) s key (.scalar stored)
      (d.origin frames offset)
    refine (congrArg (Except.map _) hset).trans ?_
    cases s.setAt key (.scalar stored) (d.origin frames offset) with
    | error e => rfl
    | ok s' =>
      exact congrArg Except.ok (Section.modifyFlags_mapOrigins _ s' key fun _ => markedFlags marker)

/-- An included tree is merged into the open section whatever the origins in both are. -/
theorem absorb_mapOrigins (g : Origin → Origin) (d : Draft) (origin origin' : Origin)
    (writable : Bool) (included : Section) :
    Except.Corresponds (mapOrigins g) (d.absorb origin writable included)
      ((d.mapOrigins g).absorb origin' writable (included.mapOrigins g)) := by
  refine writeOpen_mapOrigins (fun s => ?_) d origin origin'
  rw [Section.setWritableDeep_mapOrigins, Section.merge_mapOrigins]

end Draft

end LayeredConfig
