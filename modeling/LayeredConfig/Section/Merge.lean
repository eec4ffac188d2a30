import LayeredConfig.Section.Basic

/-!
# Merging one section into another

Keys that only the source has are copied with their attributes. Two sections under the same key
are merged in turn, and any other pair of values is settled by the source. In both cases the key
must not be protected in the destination; it ends up with the flags of the source and with the
history of the destination followed by that of the source.

A merge stops at the first conflict. What was merged before it stays merged.
-/

namespace LayeredConfig

/-- The outcome of a merge: what became of the destination, and the conflict that ended the merge
if there was one. -/
structure Merged (α : Type) where
  result : α
  conflict : Option SectionError

namespace Section

/-- The attributes of a key after a merge has reached it. -/
def overlay (dst src : KeyAttrs) : KeyAttrs :=
  { flags := src.flags, history := dst.history ++ src.history }

mutual

/-- Merges a section into `dst`. -/
def mergeInto (dst : Section) : (src : Section) → Merged Section
  | ⟨_, ⟨entries⟩⟩ =>
    let m := mergeEntries dst.entries entries
    { m with result := { dst with entries := m.result } }

/-- Merges some entries into `dst`, up to the first conflict. -/
def mergeEntries (dst : OrderedMap Entry) :
    (src : List (String × Entry)) → Merged (OrderedMap Entry)
  | [] => ⟨dst, none⟩
  | (key, ⟨value, attrs⟩) :: entries =>
    match dst.get? key with
    | none => mergeEntries (dst.insert key ⟨value, attrs⟩) entries
    | some old =>
      let m := mergeEntry key old value attrs
      let dst := dst.insert key m.result
      match m.conflict with
      | none => mergeEntries dst entries
      | some e => ⟨dst, some e⟩

/-- Merges a value and its attributes into the entry `old` of the same key. -/
def mergeEntry (key : String) (old : Entry) : (src : Value) → (attrs : KeyAttrs) → Merged Entry
  | .scalar s, attrs =>
    if old.attrs.isProtected then ⟨old, some (.keyNotWritable key)⟩
    else ⟨⟨.scalar s, overlay old.attrs attrs⟩, none⟩
  | .subsection s, attrs =>
    match old.value with
    | .scalar _ =>
      if old.attrs.isProtected then ⟨old, some (.keyNotWritable key)⟩
      else ⟨⟨.subsection s, overlay old.attrs attrs⟩, none⟩
    | .subsection d =>
      if old.attrs.isProtected then ⟨old, some (.sectionNotWritable key)⟩
      else
        let m := mergeInto d s
        match m.conflict with
        | none => ⟨⟨.subsection m.result, overlay old.attrs attrs⟩, none⟩
        | some e => ⟨{ old with value := .subsection m.result }, some e⟩

end

/-- Merges `src` into `dst`, for a caller to whom a conflict is a failure. -/
def merge (dst src : Section) : Except SectionError Section :=
  let m := dst.mergeInto src
  match m.conflict with
  | none => .ok m.result
  | some e => .error e

end Section

end LayeredConfig
