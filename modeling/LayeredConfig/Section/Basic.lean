import LayeredConfig.OrderedMap
import LayeredConfig.Source.Origin
import LayeredConfig.Template.Basic

/-!
# Section trees

A document is a tree of sections. A section keeps its keys in order, and every key holds a value
(a scalar or a nested section) together with its flags and the history of its definitions.
-/

namespace LayeredConfig

/-- The flags of a key. -/
structure Flags where
  /-- As a rule of a schema, the key has to match some key of a configuration. -/
  mandatory : Bool := false
  /-- The key can never be overwritten. -/
  final : Bool := false
  /-- The key is dropped once its document is complete. -/
  temporary : Bool := false
  /-- The key may be overwritten once; every write takes this permission back. -/
  writable : Bool := false
deriving DecidableEq, Repr

/-- Whether writing the key is refused. A final key always is; of the others only a temporary or a
writable one may be overwritten. -/
def Flags.isProtected (flags : Flags) : Bool :=
  flags.final || (!flags.temporary && !flags.writable)

/-- What is known about a key besides its value. -/
structure KeyAttrs where
  flags : Flags := {}
  history : Provenance := {}
deriving DecidableEq, Repr

/-- Whether writing the key is refused. -/
def KeyAttrs.isProtected (attrs : KeyAttrs) : Bool :=
  attrs.flags.isProtected

/-- A write that protection refuses. -/
inductive SectionError
  | keyNotWritable (key : String)
  | sectionNotWritable (key : String)
deriving DecidableEq, Repr

/-- The diagnostic for a refused write. -/
def SectionError.message : SectionError → String
  | .keyNotWritable key => s!"Key({key}) is NOT writable"
  | .sectionNotWritable key => s!"Section({key}) is not writable"

mutual

/-- What a key holds. -/
inductive Value
  | scalar (value : Scalar)
  | subsection (value : Section)

/-- A value with the attributes of its key. -/
structure Entry where
  value : Value
  attrs : KeyAttrs

/-- An ordered set of keys. The root of a document has no name. -/
structure Section where
  name : Option String
  entries : OrderedMap Entry

end

/-! ## Equality -/

mutual

/-- Decides whether two sections are the same. -/
def Section.decEq : (a b : Section) → Decidable (a = b)
  | ⟨name, ⟨as⟩⟩, ⟨name', ⟨bs⟩⟩ =>
    if h : name = name' then
      match Section.decEqEntries as bs with
      | .isTrue h' => .isTrue (by rw [h, h'])
      | .isFalse h' => .isFalse (by intro e; cases e; exact h' rfl)
    else .isFalse (by intro e; cases e; exact h rfl)

/-- Decides whether two lists of entries are the same. -/
def Section.decEqEntries : (as bs : List (String × Entry)) → Decidable (as = bs)
  | [], [] => .isTrue rfl
  | [], _ :: _ => .isFalse nofun
  | _ :: _, [] => .isFalse nofun
  | (key, ⟨value, attrs⟩) :: as, (key', ⟨value', attrs'⟩) :: bs =>
    if h : key = key' ∧ attrs = attrs' then
      match Value.decEq value value' with
      | .isFalse h' => .isFalse (by intro e; cases e; exact h' rfl)
      | .isTrue h' =>
        match Section.decEqEntries as bs with
        | .isTrue h'' => .isTrue (by rw [h.1, h.2, h', h''])
        | .isFalse h'' => .isFalse (by intro e; cases e; exact h'' rfl)
    else .isFalse (by intro e; cases e; exact h ⟨rfl, rfl⟩)

/-- Decides whether two values are the same. -/
def Value.decEq : (a b : Value) → Decidable (a = b)
  | .scalar s, .scalar t =>
    if h : s = t then .isTrue (by rw [h]) else .isFalse (by intro e; cases e; exact h rfl)
  | .scalar _, .subsection _ => .isFalse nofun
  | .subsection _, .scalar _ => .isFalse nofun
  | .subsection s, .subsection t =>
    match Section.decEq s t with
    | .isTrue h => .isTrue (by rw [h])
    | .isFalse h => .isFalse (by intro e; cases e; exact h rfl)

end

instance : DecidableEq Section := Section.decEq

instance : DecidableEq Value := Value.decEq

instance : DecidableEq Entry := fun ⟨value, attrs⟩ ⟨value', attrs'⟩ =>
  decidable_of_iff (value = value' ∧ attrs = attrs') (by simp)

/-- Whether the attributes of two keys are the same, however the paths in them are written. -/
def KeyAttrs.same (a b : KeyAttrs) : Bool :=
  a.flags == b.flags && a.history.same b.history

mutual

/-- Whether two sections are the same, however the paths in their histories are written. -/
def Section.same : (a b : Section) → Bool
  | ⟨name, ⟨as⟩⟩, ⟨name', ⟨bs⟩⟩ => name == name' && Section.sameEntries as bs

/-- Whether two lists of entries are the same in this sense. -/
def Section.sameEntries : (as bs : List (String × Entry)) → Bool
  | [], [] => true
  | (key, ⟨value, attrs⟩) :: as, (key', ⟨value', attrs'⟩) :: bs =>
    key == key' && attrs.same attrs' && value.same value' && Section.sameEntries as bs
  | _, _ => false

/-- Whether two values are the same in this sense. -/
def Value.same : (a b : Value) → Bool
  | .scalar s, .scalar t => s == t
  | .subsection s, .subsection t => s.same t
  | _, _ => false

end

/-! ## Looking at a section -/

namespace Value

/-- The section that a value is, if it is one. -/
def subsection? : Value → Option Section
  | .subsection s => some s
  | .scalar _ => none

/-- Whether the value is a section. -/
def isSubsection (value : Value) : Bool :=
  value.subsection?.isSome

/-- The text that a value is, if it is one and needs no evaluation. -/
def text? : Value → Option String
  | .scalar s => s.text?
  | .subsection _ => none

end Value

namespace Section

/-- The empty root section of a document. -/
def root : Section :=
  ⟨none, ∅⟩

/-- An empty section with a name. -/
def named (name : String) : Section :=
  ⟨some name, ∅⟩

instance : Inhabited Section := ⟨root⟩

/-- The value of a key. -/
def get? (s : Section) (key : String) : Option Value :=
  (s.entries.get? key).map (·.value)

/-- The attributes of a key. -/
def attrs? (s : Section) (key : String) : Option KeyAttrs :=
  (s.entries.get? key).map (·.attrs)

/-- The nested section at a key. -/
def subsection? (s : Section) (key : String) : Option Section :=
  (s.get? key).bind Value.subsection?

/-- Whether writing a key is refused. An absent key can always be written. -/
def isProtected (s : Section) (key : String) : Bool :=
  (s.attrs? key).any KeyAttrs.isProtected

/-- The section that a path of names leads to. The empty path leads to the section itself. -/
def sectionAt? (s : Section) (path : List String) : Option Section :=
  path.foldlM subsection? s

/-- The entry of the key at a path. The empty path has none. -/
def entryAt? (s : Section) (path : List String) : Option Entry :=
  match path.getLast? with
  | none => none
  | some key => (s.sectionAt? path.dropLast).bind (·.entries.get? key)

/-- The value of the key at a path. -/
def lookup? (s : Section) (path : List String) : Option Value :=
  (s.entryAt? path).map (·.value)

/-- The attributes of the key at a path. -/
def lookupAttrs? (s : Section) (path : List String) : Option KeyAttrs :=
  (s.entryAt? path).map (·.attrs)

end Section

end LayeredConfig
