import LayeredConfig.Proofs.Document.Lines
import LayeredConfig.Proofs.Source.Location

/-!
# Places of items

An item is placed at the byte at which it starts, and a fault at the byte at which something else
stands. These bytes are counted from the end: what is left there is a suffix of the text. So they
never lie inside a character, and each of them has a row and a column.
-/

namespace LayeredConfig

namespace Text

/-- The byte at which a suffix of a text starts. -/
def startOf (cs rest : List Char) : Nat :=
  byteLength cs - byteLength rest

/-- The rest of a text starts behind what is before it. -/
theorem startOf_append (before rest : List Char) :
    startOf (before ++ rest) rest = byteLength before := by
  rw [startOf, byteLength_append, Nat.add_sub_cancel]

end Text

/-- The place at which a suffix of a text starts has a row and a column. -/
theorem SourcePos.exists_location_of_suffix {file source : String} {rest : List Char}
    (h : rest <:+ source.toList) :
    ∃ location,
      (inSource file source (Text.startOf source.toList rest)).location = some location ∧
      location.offset = Text.startOf source.toList rest := by
  obtain ⟨before, hbefore⟩ := h
  have hmin : min (Text.startOf source.toList rest) (Text.byteLength source.toList) =
      Text.startOf source.toList rest := Nat.min_eq_left (Nat.sub_le _ _)
  have hsplit : Text.splitAtByte? source.toList (Text.startOf source.toList rest) =
      some (before, rest) := by
    rw [← hbefore, Text.startOf_append, Text.splitAtByte?_append]
  rw [inSource, hmin, Text.location?, hsplit, Option.map_some]
  exact ⟨_, rfl, rfl⟩

namespace Document

/-- The bytes at which items and the fault of a reading stand. -/
def Reading.places (reading : Reading) : List Nat :=
  reading.items.map (·.offset) ++ reading.fault.toList

/-- Something that is no item stands within the text that is left. -/
theorem suffix_of_nextItem_eq_malformed {mode : Mode} {cs place : List Char}
    (h : nextItem mode cs = .malformed place) : place <:+ cs := by
  unfold nextItem at h
  split at h
  · cases h
  · split at h
    · cases h
      exact skipBlank_suffix _ _
    · next hitem =>
      split at h
      · cases h
      · cases h
        exact (skipTail_suffix _).trans ((item_left hitem).1.trans (skipBlank_suffix _ _))

/-- Reading a suffix of a text finds items and faults at places where suffixes of the text start. -/
theorem exists_suffix_of_mem_places {mode : Mode} {all cs : List Char} (hcs : cs <:+ all)
    {offset : Nat} (h : offset ∈ (readItems mode (Text.byteLength all) cs).places) :
    ∃ rest, rest <:+ all ∧ offset = Text.startOf all rest := by
  induction hlength : cs.length using Nat.strongRecOn generalizing cs with
  | ind n ih =>
    cases hnext : nextItem mode cs with
    | finished =>
      rw [readItems_of_finished _ hnext] at h
      cases h
    | malformed place =>
      rw [readItems_of_malformed _ hnext] at h
      obtain rfl := List.mem_singleton.mp h
      exact ⟨place, (suffix_of_nextItem_eq_malformed hnext).trans hcs, rfl⟩
    | item start item rest =>
      obtain ⟨hstart, hrest⟩ := nextItem_progress hnext
      rw [readItems_of_item _ hnext] at h
      rcases List.mem_cons.mp h with rfl | h
      · exact ⟨start, hstart.trans hcs, rfl⟩
      · exact ih rest.length (hlength ▸ nextItem_length_lt hnext)
          ((hrest.1.trans hstart).trans hcs) h rfl

/-- Every place of a document has a row and a column. -/
theorem exists_location_of_mem_places {mode : Mode} {file source : String} {offset : Nat}
    (h : offset ∈ (read mode source).places) :
    ∃ location, (SourcePos.inSource file source offset).location = some location ∧
      location.offset = offset := by
  obtain ⟨rest, hrest, rfl⟩ := exists_suffix_of_mem_places List.suffix_rfl h
  exact SourcePos.exists_location_of_suffix hrest

end Document

end LayeredConfig
