import LayeredConfig.Section.Basic

/-!
# Writing into a section

Every write asks the protection of the key first. It keeps the place and the history of a key that
is there already, and leaves the key without any flag, so that it is protected again.
-/

namespace LayeredConfig.Section

/-- Writes a value under a key, unless the key is protected. -/
def set (s : Section) (key : String) (value : Value) : Except SectionError Section :=
  if s.isProtected key then .error (.keyNotWritable key)
  else
    let history := ((s.attrs? key).map (·.history)).getD {}
    .ok { s with entries := s.entries.insert key ⟨value, { history }⟩ }

/-- Changes the attributes of a key, if it is there. -/
def modifyAttrs (s : Section) (key : String) (f : KeyAttrs → KeyAttrs) : Section :=
  { s with entries := s.entries.modify key fun e => { e with attrs := f e.attrs } }

/-- Adds a definition to the history of a key. -/
def record (s : Section) (key : String) (origin : Origin) : Section :=
  s.modifyAttrs key fun a => { a with history := a.history.push origin }

/-- Writes a value under a key and records where it is defined. -/
def setAt (s : Section) (key : String) (value : Value) (origin : Origin) :
    Except SectionError Section :=
  (s.set key value).map (·.record key origin)

/-- Changes the flags of a key, if it is there. -/
def modifyFlags (s : Section) (key : String) (f : Flags → Flags) : Section :=
  s.modifyAttrs key fun a => { a with flags := f a.flags }

/-- Drops a key. -/
def erase (s : Section) (key : String) : Section :=
  { s with entries := s.entries.erase key }

/-- Applies `f` to the section that a path of names leads to. There is no result when the path
leads to no section or `f` gives none. -/
def updateAt (s : Section) (path : List String) (f : Section → Except ε Section) :
    Option (Except ε Section) :=
  match path with
  | [] => some (f s)
  | name :: path =>
    match s.subsection? name with
    | none => none
    | some sub =>
      (sub.updateAt path f).map fun result =>
        result.map fun sub' =>
          { s with entries := s.entries.modify name fun e => { e with value := .subsection sub' } }

/-! ## Permission to overwrite -/

mutual

/-- Sets the permission to overwrite of all keys of a section, those of nested sections included.
-/
def setWritableDeep (writable : Bool) : Section → Section
  | ⟨name, ⟨entries⟩⟩ => ⟨name, ⟨setWritableEntries writable entries⟩⟩

/-- Sets the permission to overwrite of some entries and of all keys below them. -/
def setWritableEntries (writable : Bool) : List (String × Entry) → List (String × Entry)
  | [] => []
  | (key, ⟨value, attrs⟩) :: entries =>
    (key, ⟨setWritableValue writable value,
      { attrs with flags := { attrs.flags with writable } }⟩) :: setWritableEntries writable entries

/-- Sets the permission to overwrite of all keys inside a value. -/
def setWritableValue (writable : Bool) : Value → Value
  | .scalar s => .scalar s
  | .subsection s => .subsection (setWritableDeep writable s)

end

/-- Grants or takes back the permission to overwrite: of one key, or of every key when there is
none given. With `deep`, the keys of the sections among them follow. -/
def setWritable (s : Section) (key : Option String) (deep writable : Bool) : Section :=
  { s with entries := ⟨s.entries.toList.map fun (k, e) =>
      if key.all (· == k) then
        (k, ⟨if deep then setWritableValue writable e.value else e.value,
          { e.attrs with flags := { e.attrs.flags with writable } }⟩)
      else (k, e)⟩ }

/-! ## Temporary keys -/

mutual

/-- Drops the temporary keys of a section and of the sections nested in it. -/
def dropTemporaryDeep : Section → Section
  | ⟨name, ⟨entries⟩⟩ => ⟨name, ⟨dropTemporaryEntries entries⟩⟩

/-- Drops the temporary ones of some entries, and the temporary keys below the others. -/
def dropTemporaryEntries : List (String × Entry) → List (String × Entry)
  | [] => []
  | (key, ⟨value, attrs⟩) :: entries =>
    if attrs.flags.temporary then dropTemporaryEntries entries
    else (key, ⟨dropTemporaryValue value, attrs⟩) :: dropTemporaryEntries entries

/-- Drops the temporary keys inside a value. -/
def dropTemporaryValue : Value → Value
  | .scalar s => .scalar s
  | .subsection s => .subsection (dropTemporaryDeep s)

end

/-- Drops the temporary keys of a section, and with `deep` those of nested sections too. -/
def dropTemporary (s : Section) (deep : Bool) : Section :=
  if deep then s.dropTemporaryDeep
  else { s with entries := s.entries.filterMap fun _ e =>
    if e.attrs.flags.temporary then none else some e }

end LayeredConfig.Section
