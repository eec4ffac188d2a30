import LayeredConfig.Section.Basic

/-!
# Evaluating references

A deferred value is evaluated once its document is complete: every template of the tree is
replaced by its text, and a reference to another template is followed to that template's own text.
The names of the keys on the way are kept, and meeting one of them again is a cycle.

An immediate value is evaluated against the tree as it stands. References to templates are not
followed then: the template is captured, and whatever is left of it is evaluated later as part of
the new value.
-/

namespace LayeredConfig

/-- What is wrong with a reference. -/
inductive ReferenceFault
  /-- The path leads to no key. -/
  | unresolved
  /-- The path leads to a section. -/
  | sectionReference
  /-- The key is being evaluated already. -/
  | cycle
deriving DecidableEq, Repr

/-- The opening words of a diagnostic. -/
def ReferenceFault.message : ReferenceFault → String
  | .unresolved => "Invalid key path"
  | .sectionReference => "Section reference"
  | .cycle => "Recursive reference"

/-- A reference that cannot be evaluated. -/
structure ReferenceError where
  fault : ReferenceFault
  /-- The path of the key whose value holds the reference. -/
  key : List String
  /-- The definitions of that key; there are none before it is stored. -/
  history : Provenance
  /-- The names of the keys under evaluation, outermost first. -/
  chain : List String
  /-- The path that the reference leads to. -/
  target : List String
deriving DecidableEq, Repr

/-- The name of a key path: its keys, joined by colons. -/
def pathName (path : List String) : String :=
  ":".intercalate path

/-- The diagnostic for a reference that cannot be evaluated. -/
def ReferenceError.message (e : ReferenceError) : String :=
  s!"{e.fault.message}\n{e.history.render}\nReference path: " ++ " -> ".intercalate e.chain ++
    s!"\nReference key: {pathName e.target}"

/-- A piece of a value once captured templates have been opened. -/
inductive Piece
  | literal (text : String)
  | reference (ref : Reference)
deriving DecidableEq, Repr

namespace Fragment

mutual

/-- The pieces of a fragment. -/
def pieces : Fragment → List Piece
  | .literal text => [.literal text]
  | .reference ref => [.reference ref]
  | .nested fragments => piecesList fragments

/-- The pieces of some fragments, in order. -/
def piecesList : List Fragment → List Piece
  | [] => []
  | fragment :: fragments => fragment.pieces ++ piecesList fragments

end

end Fragment

/-- The pieces of a template, with captured templates opened. -/
def Template.pieces (template : Template) : List Piece :=
  Fragment.piecesList template.fragments

/-- The text of a piece, given the text of every reference. -/
def Piece.text (resolve : Reference → Except ε String) : Piece → Except ε String
  | .literal s => .ok s
  | .reference ref => resolve ref

/-- The texts of some pieces, one after the other. The first failure counts. -/
def Piece.joinTexts (resolve : Reference → Except ε String) (pieces : List Piece) :
    Except ε String :=
  (pieces.mapM (Piece.text resolve)).map String.join

namespace Section

/-- The error for a reference in the value of `key`. -/
def referenceError (root : Section) (fault : ReferenceFault) (chain key : List String)
    (ref : Reference) : ReferenceError :=
  { fault, key, chain, target := ref.resolve key,
    history := ((root.lookupAttrs? key).map (·.history)).getD {} }

/-! ## Deferred evaluation -/

mutual

/-- The paths of the keys of a section that hold templates, in document order. -/
def templateKeys (path : List String) : Section → List (List String)
  | ⟨_, ⟨entries⟩⟩ => templateKeysOfEntries path entries

/-- The paths of the keys that hold templates among some entries and below them. -/
def templateKeysOfEntries (path : List String) : List (String × Entry) → List (List String)
  | [] => []
  | (key, ⟨value, _⟩) :: entries =>
    templateKeysOfValue (path ++ [key]) value ++ templateKeysOfEntries path entries

/-- The paths of the keys that hold templates in the value of the key at `path`. -/
def templateKeysOfValue (path : List String) : Value → List (List String)
  | .scalar (.text _) => []
  | .scalar (.template _) => [path]
  | .subsection s => templateKeys path s

end

/-- The text that a reference in the value of `key` stands for, with the keys in `chain` under
evaluation already. A chain never has more keys than there are templates, so that `fuel` above
their number is never used up. -/
def referenceText (root : Section) :
    (fuel : Nat) → (chain key : List String) → Reference → Except ReferenceError String
  | 0, chain, key, ref => .error (root.referenceError .cycle (chain ++ [pathName key]) key ref)
  | fuel + 1, chain, key, ref =>
    let chain' := chain ++ [pathName key]
    if chain.contains (pathName key) then .error (root.referenceError .cycle chain' key ref)
    else
      match root.lookup? (ref.resolve key) with
      | none => .error (root.referenceError .unresolved chain' key ref)
      | some (.subsection _) => .error (root.referenceError .sectionReference chain' key ref)
      | some (.scalar (.text s)) => .ok s
      | some (.scalar (.template t)) =>
        Piece.joinTexts (referenceText root fuel chain' (ref.resolve key)) t.pieces

/-- The text of a template that is the value of `key`. -/
def templateText (root : Section) (key : List String) (t : Template) :
    Except ReferenceError String :=
  Piece.joinTexts (root.referenceText ((root.templateKeys []).length + 1) [] key) t.pieces

mutual

/-- Replaces every template below `path` by its text. -/
def evaluateIn (root : Section) (path : List String) : Section → Except ReferenceError Section
  | ⟨name, ⟨entries⟩⟩ => (evaluateEntries root path entries).map (⟨name, ⟨·⟩⟩)

/-- Replaces the templates among some entries and below them by their texts. -/
def evaluateEntries (root : Section) (path : List String) :
    List (String × Entry) → Except ReferenceError (List (String × Entry))
  | [] => .ok []
  | (key, ⟨value, attrs⟩) :: entries => do
    let value ← evaluateValue root (path ++ [key]) value
    let entries ← evaluateEntries root path entries
    .ok ((key, ⟨value, attrs⟩) :: entries)

/-- Replaces the templates in the value of the key at `path` by their texts. -/
def evaluateValue (root : Section) (path : List String) : Value → Except ReferenceError Value
  | .scalar (.text s) => .ok (.scalar (.text s))
  | .scalar (.template t) => (root.templateText path t).map (.scalar <| .text ·)
  | .subsection s => (evaluateIn root path s).map .subsection

end

/-- Replaces every template of a document by its text. All references are looked up in the
document as it was before. -/
def evaluateAll (root : Section) : Except ReferenceError Section :=
  root.evaluateIn [] root

/-! ## Immediate evaluation -/

mutual

/-- A fragment of the value of `key`, with its references replaced by what they stand for now. -/
def captureFragment (root : Section) (key : List String) :
    Fragment → Except ReferenceError Fragment
  | .literal text => .ok (.literal text)
  | .reference ref =>
    match root.lookup? (ref.resolve key) with
    | none => .error (root.referenceError .unresolved [pathName key] key ref)
    | some (.subsection _) =>
      .error (root.referenceError .sectionReference [pathName key] key ref)
    | some (.scalar (.text s)) => .ok (.literal s)
    | some (.scalar (.template t)) => .ok (.nested t.fragments)
  | .nested fragments =>
    (captureFragments root key fragments).map fun fragments =>
      match Template.collapse { fragments } with
      | .text s => .literal s
      | .template t => .nested t.fragments

/-- The fragments of the value of `key`, with their references replaced by what they stand for. -/
def captureFragments (root : Section) (key : List String) :
    List Fragment → Except ReferenceError (List Fragment)
  | [] => .ok []
  | fragment :: fragments => do
    let fragment ← captureFragment root key fragment
    let fragments ← captureFragments root key fragments
    .ok (fragment :: fragments)

end

/-- Evaluates a template that is about to become the value of `key`. A relative reference inside a
captured template is later looked up from the section of `key`. -/
def evaluateImmediate (root : Section) (key : List String) (t : Template) :
    Except ReferenceError Scalar :=
  (captureFragments root key t.fragments).map fun fragments => Template.collapse { fragments }

end Section

end LayeredConfig
