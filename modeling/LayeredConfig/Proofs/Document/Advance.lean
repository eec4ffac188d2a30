import LayeredConfig.Proofs.Document.Cursor

/-!
# Reading advances

While the items of a document are read one after the other, each of them starts where the cursor has
got to or later, takes something, and leaves the cursor at the end of a line (`Advances`). So the
cursor comes to an end, and before that it has passed at least one line of the text for every item
(`Advances.length_le`). An item may take more lines than one.
-/

namespace LayeredConfig

namespace Text

variable {cs rest : List Char}

/-- The number of lines of a text. A line feed ends a line, and what stands behind the last one is
a line as well, unless it is empty. -/
def lineCount (cs : List Char) : Nat :=
  cs.count '\n' + if cs.getLast?.all (· == '\n') then 0 else 1

example : lineCount ['a', '\n', 'b'] = 2 ∧ lineCount ['a', '\n'] = 1 := by decide

/-- A line feed in front adds a line. -/
theorem lineCount_lineFeed (cs : List Char) : lineCount ('\n' :: cs) = lineCount cs + 1 := by
  cases cs with
  | nil => rfl
  | cons c cs =>
    rw [lineCount, lineCount, List.count_cons_self, List.getLast?_cons_cons]
    omega

/-- A text that is not empty has a line. -/
theorem lineCount_pos (h : cs ≠ []) : 0 < lineCount cs := by
  rw [lineCount, List.getLast?_eq_some_getLast h]
  split
  · rename_i hlast
    have hlast : cs.getLast h = '\n' := by simpa using hlast
    have hmem := List.count_pos_iff.mpr (hlast ▸ List.getLast_mem h)
    omega
  · omega

/-- What is left of a text has no more lines than the text. -/
theorem lineCount_le_of_suffix (h : rest <:+ cs) : lineCount rest ≤ lineCount cs := by
  obtain ⟨before, rfl⟩ := h
  by_cases hrest : rest = []
  · rw [hrest]
    exact Nat.zero_le _
  · rw [lineCount, lineCount, List.getLast?_append_of_ne_nil before hrest, List.count_append]
    omega

end Text

namespace Document

open Text

/-- An item of a text ends at the end of a line, behind the byte at which it starts. -/
structure Extent.IsInText {text : List Char} (extent : Extent text) : Prop where
  start_isBoundary : IsBoundary text extent.placed.offset
  start_lt_stop : extent.placed.offset < extent.stop.offset
  stop_atLineEnd : atLineEnd extent.stop.rest = true

/-- Items are read one after the other where `cs` is left of the text. -/
inductive Advances (text : List Char) : List Char → List (Extent text) → Prop
  | done (cs : List Char) : Advances text cs []
  | item {cs start rest : List Char} {extents : List (Extent text)} (i : Item)
      (hstart : skipBlank false cs = start) (hrest : Left start rest)
      (hends : atLineEnd rest = true) (h : rest <:+ text) (hextents : Advances text rest extents) :
      Advances text cs (⟨⟨startOf text start, i⟩, .of h⟩ :: extents)

/-- The less is left of a text, the later it starts. -/
theorem startOf_le_startOf {text cs rest : List Char} (h : rest <:+ cs) (hcs : cs <:+ text) :
    startOf text cs ≤ startOf text rest := by
  obtain ⟨taken, rfl⟩ := h
  have hadd := startOf_add hcs
  omega

/-- What has been read takes some bytes. -/
theorem Left.startOf_lt_startOf {text cs rest : List Char} (h : Left cs rest) (hcs : cs <:+ text) :
    startOf text cs < startOf text rest := by
  obtain ⟨⟨taken, rfl⟩, hlength⟩ := h
  have htaken : taken ≠ [] := by
    rintro rfl
    exact absurd hlength (Nat.lt_irrefl _)
  have hadd := startOf_add hcs
  have hpos := byteLength_pos htaken
  omega

namespace Advances

variable {text cs : List Char} {extents : List (Extent text)}

/-- The items that are read one after the other are in the text. -/
theorem isInText (h : Advances text cs extents) (hcs : cs <:+ text) :
    ∀ extent ∈ extents, extent.IsInText := by
  induction h with
  | done cs => exact List.forall_mem_nil _
  | item i hstart hrest hends h hextents ih =>
    have htext := (hstart ▸ skipBlank_suffix false _).trans hcs
    refine List.forall_mem_cons.mpr ⟨?_, ih h⟩
    constructor
    · exact isBoundary_startOf htext
    · exact hrest.startOf_lt_startOf htext
    · rwa [Boundary.rest_of]

/-- Every item starts where the cursor has got to or later. -/
theorem startOf_le (h : Advances text cs extents) (hcs : cs <:+ text) :
    ∀ extent ∈ extents, startOf text cs ≤ extent.placed.offset := by
  induction h with
  | done cs => exact List.forall_mem_nil _
  | item i hstart hrest hends h hextents ih =>
    have hblank := hstart ▸ skipBlank_suffix false _
    refine List.forall_mem_cons.mpr ⟨startOf_le_startOf hblank hcs, fun extent hextent => ?_⟩
    exact (startOf_le_startOf (hrest.1.trans hblank) hcs).trans (ih h extent hextent)

/-- Each item starts where those before it have stopped, or later. -/
theorem pairwise_stop_le (h : Advances text cs extents) :
    extents.Pairwise fun extent next => extent.stop.offset ≤ next.placed.offset := by
  induction h with
  | done cs => exact List.Pairwise.nil
  | item i hstart hrest hends h hextents ih =>
    exact List.pairwise_cons.mpr ⟨hextents.startOf_le h, ih⟩

/-- Every item has a line of its own: the one that ends where the item ends. -/
theorem length_le (h : Advances text cs extents) :
    extents.length ≤ lineCount (skipBlank false cs) := by
  induction h with
  | done cs => exact Nat.zero_le _
  | @item cs start rest extents i hstart hrest hends h hextents ih =>
    have hle := lineCount_le_of_suffix hrest.1
    rw [hstart, List.length_cons]
    cases rest with
    | nil =>
      have hpos := lineCount_pos (List.ne_nil_of_length_pos hrest.2)
      -- the text ends with this item, so that no other one follows
      have hnone : extents.length ≤ 0 := ih
      omega
    | cons c rest =>
      obtain rfl := atLineEnd_iff.mp hends c rfl
      -- the line end behind the item is skipped with the blank before the next one
      have hskip : lineCount (skipBlank false ('\n' :: rest)) ≤ lineCount rest := by
        rw [skipBlank, if_pos (.inl rfl)]
        exact lineCount_le_of_suffix (skipBlank_suffix false rest)
      rw [lineCount_lineFeed] at hle
      omega

end Advances

section readItems

open Cursor

variable {mode : Mode} {text cs start place rest : List Char} {i : Item}

/-- At the end of the text, what has been read is the result. -/
theorem reads_itemNext_finished (read : List (Extent text)) (h : nextItem mode cs = .finished) :
    Reads (itemNext mode text read) cs (.inr (read, none)) [] := by
  have hnext := reads_nextItem mode text cs
  rw [h] at hnext
  exact hnext.bind (reads_pure _)

/-- At a fault, the result says where it is. -/
theorem reads_itemNext_malformed (read : List (Extent text))
    (h : nextItem mode cs = .malformed place) :
    Reads (itemNext mode text read) cs (.inr (read, some (startOf text place))) place := by
  have hnext := reads_nextItem mode text cs
  rw [h] at hnext
  exact hnext.bind (reads_pure _)

/-- An item is added to those that have been read. -/
theorem reads_itemNext_item (read : List (Extent text)) (h : nextItem mode cs = .item start i rest)
    (hrest : rest <:+ text) :
    Reads (itemNext mode text read) cs
      (.inl (read ++ [⟨⟨startOf text start, i⟩, .of hrest⟩])) rest := by
  have hnext := reads_nextItem mode text cs
  rw [h] at hnext
  exact hnext.bind (reads_get_bind fun _ => reads_pure _)

/-- The cursor comes to an end. It has read the items of the text, and its fault. -/
theorem loops_itemNext (mode : Mode) (hcs : cs <:+ text) :
    ∃ extents cs',
      (∀ read, Loops (itemNext mode text) read cs
        (read ++ extents, (readItems mode (byteLength text) cs).fault) cs') ∧
      extents.map (·.placed) = (readItems mode (byteLength text) cs).items ∧
      Advances text cs extents := by
  induction hlength : cs.length using Nat.strongRecOn generalizing cs with
  | ind n ih =>
    cases hnext : nextItem mode cs with
    | finished =>
      refine ⟨[], [], fun read => ?_, ?_, .done cs⟩
      · rw [readItems_of_finished _ hnext, List.append_nil]
        exact .done (reads_itemNext_finished read hnext)
      · rw [readItems_of_finished _ hnext]
        rfl
    | malformed place =>
      refine ⟨[], place, fun read => ?_, ?_, .done cs⟩
      · rw [readItems_of_malformed _ hnext, List.append_nil]
        exact .done (reads_itemNext_malformed read hnext)
      · rw [readItems_of_malformed _ hnext]
        rfl
    | item start i rest =>
      obtain ⟨hstart, hrest⟩ := nextItem_progress hnext
      obtain ⟨hblank, more, hitem, htail, hends⟩ := nextItem_eq_item_iff.mp hnext
      have htext := (hrest.1.trans hstart).trans hcs
      -- the item has taken characters, so that the induction is on what is left
      have hshort := nextItem_length_lt hnext
      obtain ⟨extents, cs', hloops, hplaced, hadvances⟩ :=
        ih rest.length (hlength ▸ hshort) htext rfl
      rw [readItems_of_item _ hnext]
      refine ⟨⟨⟨startOf text start, i⟩, .of htext⟩ :: extents, cs', fun read => ?_, ?_, ?_⟩
      · rw [List.append_cons]
        exact .again (reads_itemNext_item read hnext htext) hshort (hloops _)
      · rw [List.map_cons, hplaced]
        rfl
      · exact .item i hblank hrest hends htext hadvances

end readItems

/-- Reading the items of a text one after the other comes to an end and never leaves the text, nor
the boundaries of its characters. Every item takes something and ends at the end of a line, and the
next one starts behind it. So there are no more items than lines. -/
theorem reading_advances (mode : Mode) (source : String) :
    ∃ extents stop,
      (Cursor.readItems mode source.toList).run (.first source.toList) =
        some ((extents, (read mode source).fault), stop) ∧
      extents.map (·.placed) = (read mode source).items ∧
      (∀ extent ∈ extents, extent.IsInText) ∧
      extents.Pairwise (fun extent next => extent.stop.offset ≤ next.placed.offset) ∧
      (read mode source).items.Pairwise (fun placed next => placed.offset < next.offset) ∧
      (read mode source).items.length ≤ lineCount source.toList := by
  obtain ⟨extents, cs', hloops, hplaced, hadvances⟩ :=
    loops_itemNext mode (List.suffix_refl source.toList)
  obtain ⟨hcs', hrun⟩ := (hloops []).reads List.suffix_rfl
  rw [← Boundary.first_eq] at hrun
  have hin := hadvances.isInText List.suffix_rfl
  have hstops := hadvances.pairwise_stop_le
  have hlines := lineCount_le_of_suffix (skipBlank_suffix false source.toList)
  -- each item stops behind its start, and the next one starts where it stopped or later
  refine ⟨extents, .of hcs', hrun, hplaced, hin, hstops, ?_, ?_⟩
  · rw [read, ← hplaced, List.pairwise_map]
    exact hstops.imp_of_mem fun hextent _ hle => (hin _ hextent).start_lt_stop.trans_le hle
  · rw [read, ← hplaced, List.length_map]
    exact hadvances.length_le.trans hlines

/-- The first item spans a line end. Bytes count, not characters, so the text has one more of them
than it seems to have. -/
example : ((Cursor.readItems .config "a = '''ä\n'''\n# b\nc = 3".toList).run (.first _)).map
    (fun r => r.1.1.map fun extent => (extent.placed.offset, extent.stop.offset)) =
      some [(0, 13), (18, 23)] := by
  decide +kernel

end Document

end LayeredConfig
