import LayeredConfig.Proofs.Text.Prefixes
import LayeredConfig.Proofs.Text.SplitOn
import LayeredConfig.Source.Location
import Mathlib.Algebra.GroupWithZero.Nat

/-!
# Rows and columns

A text is a list of lines with a line feed between each two. `IsPlace` says where a row and a column
are in it: so many characters into that line, which begins behind the lines in front of it and their
line feeds. These places are the bytes at which characters start, and the end of the text. The row
and the column of a byte are the place that it is (`location?_eq_some_iff`), the line that is shown
for it is the line of that row, and places come in the order of their bytes
(`IsPlace.precedes_iff`).
-/

namespace LayeredConfig

namespace Text

variable {cs before after line line' text : List Char} {c separator : Char}
  {offset offset' row row' column column' : Nat} {source : String}

/-! ## Bytes -/

/-- A text that is put together is split at the byte where it was. -/
theorem splitAtByte?_append (before after : List Char) :
    splitAtByte? (before ++ after) (byteLength before) = some (before, after) := by
  induction before with
  | nil => cases after <;> rfl
  | cons c before ih =>
    have hsize := c.utf8Size_pos
    obtain ⟨n, hn⟩ : ∃ n, byteLength (c :: before) = n + 1 :=
      Nat.exists_eq_add_one.mpr (by rw [byteLength_cons]; omega)
    have hrest : n + 1 - c.utf8Size = byteLength before := by
      rw [← hn, byteLength_cons, Nat.add_sub_cancel_left]
    have hfits : c.utf8Size ≤ n + 1 := by
      rw [← hn, byteLength_cons]
      exact Nat.le_add_right _ _
    rw [hn, List.cons_append, splitAtByte?, if_pos hfits, hrest, ih, Option.map_some]

/-- The parts of a text that is split at a byte make it up, and the first one ends there. -/
theorem splitAtByte?_eq_some_iff :
    splitAtByte? cs offset = some (before, after) ↔
      cs = before ++ after ∧ offset = byteLength before := by
  constructor
  · intro h
    fun_induction splitAtByte? cs offset generalizing before after with
    | case1 cs =>
      cases h
      exact ⟨rfl, rfl⟩
    | case2 => cases h
    | case3 c cs n hfits ih =>
      obtain ⟨parts, hparts, heq⟩ := Option.map_eq_some_iff.mp h
      obtain ⟨rfl, rfl⟩ := Prod.mk.inj heq
      obtain ⟨rfl, hrest⟩ := ih hparts
      refine ⟨rfl, ?_⟩
      rw [byteLength_cons]
      omega
    | case4 => cases h
  · rintro ⟨rfl, rfl⟩
    exact splitAtByte?_append before after

/-- A byte inside the bytes of one character. -/
def InsideCharacter (cs : List Char) (offset : Nat) : Prop :=
  ∃ before c after, cs = before ++ c :: after ∧ byteLength before < offset ∧
    offset < byteLength before + c.utf8Size

/-- A text is split at every byte but those inside a character and those past its end. -/
theorem splitAtByte?_eq_none_iff :
    splitAtByte? cs offset = none ↔ byteLength cs < offset ∨ InsideCharacter cs offset := by
  fun_induction splitAtByte? cs offset with
  | case1 cs => simp [InsideCharacter]
  | case2 n => simp [InsideCharacter]
  | case3 c cs n hfits ih =>
    rw [Option.map_eq_none_iff, ih, byteLength_cons]
    refine or_congr (by omega) ?_
    constructor
    · rintro ⟨before, d, after, rfl, hlt, hgt⟩
      refine ⟨c :: before, d, after, rfl, ?_⟩
      rw [byteLength_cons]
      omega
    · rintro ⟨before, d, after, hsplit, hlt, hgt⟩
      -- the character that holds the byte is the first one, which fits in front of it, or a later
      -- one
      cases before with
      | nil =>
        obtain ⟨rfl, rfl⟩ := List.cons.inj hsplit
        rw [byteLength_nil] at hgt
        omega
      | cons c' before =>
        obtain ⟨rfl, rfl⟩ := List.cons.inj hsplit
        rw [byteLength_cons] at hlt hgt
        exact ⟨before, d, after, rfl, by omega, by omega⟩
  | case4 c cs n hfits =>
    refine iff_of_true rfl (.inr ⟨[], c, cs, rfl, Nat.succ_pos n, ?_⟩)
    rw [byteLength_nil]
    omega

theorem byteLength_pos (h : cs ≠ []) : 0 < byteLength cs := by
  obtain ⟨c, cs, rfl⟩ := List.exists_cons_of_ne_nil h
  have hsize := c.utf8Size_pos
  rw [byteLength_cons]
  omega

/-- More characters of a text take more bytes. -/
theorem byteLength_take_lt {m n : Nat} (h : m < n) (hn : n ≤ cs.length) :
    byteLength (cs.take m) < byteLength (cs.take n) := by
  obtain ⟨k, rfl⟩ := Nat.exists_eq_add_of_lt h
  have hpos : 0 < byteLength ((cs.drop m).take (k + 1)) := by
    apply byteLength_pos
    rw [ne_eq, List.take_eq_nil_iff, List.drop_eq_nil_iff]
    omega
  rw [Nat.add_assoc, List.take_add, byteLength_append]
  exact Nat.lt_add_of_pos_right hpos

theorem byteLength_take_le (cs : List Char) (n : Nat) :
    byteLength (cs.take n) ≤ byteLength cs := by
  have hsplit := congrArg byteLength (List.take_append_drop n cs)
  rw [byteLength_append] at hsplit
  exact hsplit ▸ Nat.le_add_right _ _

/-! ## Lines -/

/-- The number of bytes in front of a line: those of the lines before it and of their line feeds. -/
def lineStart (lines : List (List Char)) (row : Nat) : Nat :=
  ((lines.take row).map fun line => byteLength line + 1).sum

/-- A row and a column name the place so many characters into that line. The end of a line, where
its line feed stands, is a place of this line. -/
structure IsPlace (cs : List Char) (offset row column : Nat) (line : List Char) : Prop where
  line_eq : (splitOn '\n' cs)[row]? = some line
  column_le : column ≤ line.length
  offset_eq : offset = lineStart (splitOn '\n' cs) row + byteLength (line.take column)

/-- A line further up moves the others down by its bytes and a line feed. -/
theorem lineStart_cons (line : List Char) (lines : List (List Char)) (row : Nat) :
    lineStart (line :: lines) (row + 1) = byteLength line + 1 + lineStart lines row := by
  rw [lineStart, List.take_succ_cons, List.map_cons, List.sum_cons, lineStart]

/-- The next line begins behind the line feed of this one. -/
theorem lineStart_succ {lines : List (List Char)} (h : lines[row]? = some line) :
    lineStart lines (row + 1) = lineStart lines row + byteLength line + 1 := by
  rw [lineStart, List.take_add_one, h, List.map_append, List.sum_append_nat, ← lineStart]
  simp only [Option.toList_some, List.map_cons, List.map_nil, List.sum_singleton]
  omega

/-- Lines begin in their order. -/
theorem lineStart_le {lines : List (List Char)} (h : row ≤ row') :
    lineStart lines row ≤ lineStart lines row' := by
  obtain ⟨n, rfl⟩ := Nat.exists_eq_add_of_le h
  rw [lineStart, lineStart, List.take_add, List.map_append, List.sum_append_nat]
  exact Nat.le_add_right _ _

theorem bne_of_not_mem (h : separator ∉ cs) : ∀ c ∈ cs, (c != separator) = true := by
  intro c hc
  rw [bne_iff_ne]
  rintro rfl
  exact h hc

/-- The first piece of a text ends at the first separator. -/
theorem getElem?_splitOn_zero (separator : Char) (cs : List Char) :
    (splitOn separator cs)[0]? = some (cs.takeWhile (· != separator)) := by
  induction cs using @splitOn_induction separator with
  | last piece hpiece =>
    have htake := List.takeWhile_eq_self_iff.mpr (bne_of_not_mem hpiece)
    rw [splitOn_of_not_mem hpiece, htake, List.getElem?_cons_zero]
  | cons piece rest hpiece _ =>
    rw [splitOn_append hpiece, takeWhile_append_of_stop (bne_of_not_mem hpiece) (by simp),
      List.getElem?_cons_zero]

/-- Characters without a line feed stand on the line that they are put behind. -/
theorem lastLine_append (h : '\n' ∉ cs) (before : List Char) :
    lastLine (before ++ cs) = lastLine before ++ cs := by
  have hcs : ∀ c ∈ cs.reverse, (c != '\n') = true :=
    fun c hc => bne_of_not_mem h c (List.mem_reverse.mp hc)
  rw [lastLine, List.reverse_append, List.takeWhile_append_of_pos hcs, List.reverse_append,
    List.reverse_reverse, lastLine]

/-- A text without a line feed is its own last line. -/
theorem lastLine_of_not_mem (h : '\n' ∉ cs) : lastLine cs = cs :=
  lastLine_append h []

/-- What stands in front of a line feed is not on the last line. -/
theorem lastLine_append_lineFeed (before cs : List Char) :
    lastLine (before ++ '\n' :: cs) = lastLine cs := by
  -- a line feed further on makes the one in front of it count for nothing
  induction cs using @splitOn_induction '\n' generalizing before with
  | last piece hpiece =>
    rw [List.append_cons, lastLine_append hpiece, lastLine_of_not_mem hpiece, lastLine,
      List.reverse_append]
    rfl
  | cons piece rest _ ih =>
    rw [ih, ← List.cons_append, ← List.append_assoc, ih]

/-- What stands in front of a place ends with the characters in front of it on its line. -/
theorem isPlace_append (before after : List Char) :
    IsPlace (before ++ after) (byteLength before) (before.count '\n') (lastLine before).length
      (lastLine before ++ after.takeWhile (· != '\n')) := by
  -- a place behind the first line feed is one of what follows it, a row further up
  induction before using @splitOn_induction '\n' with
  | last piece hpiece =>
    rw [List.count_eq_zero.mpr hpiece, lastLine_of_not_mem hpiece]
    refine ⟨?_, ?_, ?_⟩
    · rw [getElem?_splitOn_zero, List.takeWhile_append_of_pos (bne_of_not_mem hpiece)]
    · rw [List.length_append]
      exact Nat.le_add_right _ _
    · rw [List.take_left, lineStart, List.take_zero, List.map_nil, List.sum_nil, Nat.zero_add]
  | cons piece rest hpiece ih =>
    have hcount : (piece ++ '\n' :: rest).count '\n' = rest.count '\n' + 1 := by
      rw [List.count_append, List.count_cons_self, List.count_eq_zero.mpr hpiece, Nat.zero_add]
    have hsplit : splitOn '\n' (piece ++ '\n' :: rest ++ after) =
        piece :: splitOn '\n' (rest ++ after) := by
      rw [List.append_assoc, List.cons_append, splitOn_append hpiece]
    rw [hcount, lastLine_append_lineFeed]
    refine ⟨?_, ih.column_le, ?_⟩
    · rw [hsplit, List.getElem?_cons_succ, ih.line_eq]
    · have hoffset := ih.offset_eq
      rw [hsplit, lineStart_cons, byteLength_append, byteLength_cons, hoffset]
      have hsize : '\n'.utf8Size = 1 := rfl
      omega

/-- A place lies between the characters in front of it and those behind it. -/
theorem IsPlace.exists_split (h : IsPlace cs offset row column line) :
    ∃ before after, cs = before ++ after ∧ offset = byteLength before ∧
      before.count '\n' = row ∧ lastLine before = line.take column ∧
      after.takeWhile (· != '\n') = line.drop column := by
  obtain ⟨hline, hcolumn, hoffset⟩ := h
  -- the first line, which may be the last one, or have a line feed behind it
  have hfirst {piece back : List Char} (hpiece : '\n' ∉ piece)
      (hback : ∀ c ∈ back.head?, (c != '\n') = false) :
      (piece.take column).count '\n' = 0 ∧ lastLine (piece.take column) = piece.take column ∧
        (piece.drop column ++ back).takeWhile (· != '\n') = piece.drop column := by
    have htake : '\n' ∉ piece.take column := fun hmem => hpiece (List.mem_of_mem_take hmem)
    have hdrop : '\n' ∉ piece.drop column := fun hmem => hpiece (List.mem_of_mem_drop hmem)
    exact ⟨List.count_eq_zero.mpr htake, lastLine_of_not_mem htake,
      takeWhile_append_of_stop (bne_of_not_mem hdrop) hback⟩
  induction cs using @splitOn_induction '\n' generalizing offset row with
  | last piece hpiece =>
    rw [splitOn_of_not_mem hpiece] at hline hoffset
    obtain ⟨rfl, rfl⟩ : row = 0 ∧ piece = line := by
      rw [List.getElem?_singleton] at hline
      split at hline
      · exact ⟨‹_›, Option.some_inj.mp hline⟩
      · cases hline
    obtain ⟨hcount, hlast, htake⟩ := @hfirst piece [] hpiece nofun
    rw [List.append_nil] at htake
    refine ⟨piece.take column, piece.drop column, (List.take_append_drop _ _).symm, ?_, hcount,
      hlast, htake⟩
    rw [hoffset, lineStart, List.take_zero, List.map_nil, List.sum_nil, Nat.zero_add]
  | cons piece rest hpiece ih =>
    rw [splitOn_append hpiece] at hline hoffset
    cases row with
    | zero =>
      obtain rfl := Option.some_inj.mp hline
      obtain ⟨hcount, hlast, htake⟩ := @hfirst piece ('\n' :: rest) hpiece (by simp)
      refine ⟨piece.take column, piece.drop column ++ '\n' :: rest, ?_, ?_, hcount, hlast, htake⟩
      · rw [← List.append_assoc, List.take_append_drop]
      · rw [hoffset, lineStart, List.take_zero, List.map_nil, List.sum_nil, Nat.zero_add]
    | succ row =>
      rw [List.getElem?_cons_succ] at hline
      obtain ⟨before, after, rfl, hbefore, hcount, hlast, htake⟩ := ih hline rfl
      refine ⟨piece ++ '\n' :: before, after, by simp, ?_, ?_, ?_, htake⟩
      · have hsize : '\n'.utf8Size = 1 := rfl
        rw [hoffset, lineStart_cons, byteLength_append, byteLength_cons, ← hbefore]
        omega
      · rw [List.count_append, List.count_cons_self, List.count_eq_zero.mpr hpiece, hcount,
          Nat.zero_add]
      · rw [lastLine_append_lineFeed, hlast]

/-- A place in front of another one is in a line before, or further to the left in the same line.
-/
theorem IsPlace.lt_of_precedes (h : IsPlace cs offset row column line)
    (h' : IsPlace cs offset' row' column' line')
    (hprecedes : row < row' ∨ row = row' ∧ column < column') : offset < offset' := by
  rw [h.offset_eq, h'.offset_eq]
  rcases hprecedes with hrow | ⟨rfl, hcolumn⟩
  · calc lineStart (splitOn '\n' cs) row + byteLength (line.take column)
        ≤ lineStart (splitOn '\n' cs) row + byteLength line :=
          Nat.add_le_add_left (byteLength_take_le line column) _
      _ < lineStart (splitOn '\n' cs) (row + 1) := by
        rw [lineStart_succ h.line_eq]
        exact Nat.lt_succ_self _
      _ ≤ lineStart (splitOn '\n' cs) row' := lineStart_le hrow
      _ ≤ lineStart (splitOn '\n' cs) row' + byteLength (line'.take column') :=
        Nat.le_add_right _ _
  · obtain rfl : line = line' := Option.some_inj.mp (h.line_eq.symm.trans h'.line_eq)
    exact Nat.add_lt_add_left (byteLength_take_lt hcolumn h'.column_le) _

/-- Places come in the order of their bytes. -/
theorem IsPlace.precedes_iff (h : IsPlace cs offset row column line)
    (h' : IsPlace cs offset' row' column' line') :
    (row < row' ∨ row = row' ∧ column < column') ↔ offset < offset' := by
  refine ⟨h.lt_of_precedes h', fun hlt => ?_⟩
  by_contra hnot
  -- otherwise the two are the same place, or the other one comes first
  have hrest : (row' < row ∨ row' = row ∧ column' < column) ∨ row = row' ∧ column = column' := by
    omega
  rcases hrest with hafter | ⟨rfl, rfl⟩
  · exact Nat.lt_asymm hlt (h'.lt_of_precedes h hafter)
  · obtain rfl : line = line' := Option.some_inj.mp (h.line_eq.symm.trans h'.line_eq)
    rw [h.offset_eq, h'.offset_eq] at hlt
    exact Nat.lt_irrefl _ hlt

/-! ## Locations -/

/-- The location of a byte has the row and the column of its place. -/
theorem location?_of_isPlace (h : IsPlace source.toList offset row column line) :
    location? source offset = some ⟨offset, row, column⟩ := by
  obtain ⟨before, after, hsplit, hoffset, hcount, hlast, -⟩ := h.exists_split
  rw [location?, splitAtByte?_eq_some_iff.mpr ⟨hsplit, hoffset⟩, Option.map_some]
  dsimp only
  rw [hcount, hlast, List.length_take, Nat.min_eq_left h.column_le]

/-- The row and the column of a byte are the place that it is. -/
theorem location?_eq_some_iff {location : Location} :
    location? source offset = some location ↔
      location.offset = offset ∧
        ∃ line, IsPlace source.toList offset location.row location.column line := by
  constructor
  · intro h
    obtain ⟨⟨before, after⟩, hsplit, rfl⟩ := Option.map_eq_some_iff.mp h
    obtain ⟨hsource, rfl⟩ := splitAtByte?_eq_some_iff.mp hsplit
    exact ⟨rfl, _, hsource ▸ isPlace_append before after⟩
  · rintro ⟨rfl, line, h⟩
    exact location?_of_isPlace h

/-- Only bytes inside a character and those past the end have no location. -/
theorem location?_eq_none_iff :
    location? source offset = none ↔
      byteLength source.toList < offset ∨ InsideCharacter source.toList offset := by
  rw [location?, Option.map_eq_none_iff, splitAtByte?_eq_none_iff]

/-- What is shown of a line: all of it but the carriage returns at its end. -/
def ShowsAs (line text : List Char) : Prop :=
  text.getLast? ≠ some '\r' ∧ ∃ n, line = text ++ List.replicate n '\r'

/-- Dropping the carriage returns at the end of a line leaves what is shown of it. -/
theorem showsAs_dropTrailing (line : List Char) :
    ShowsAs line (dropTrailing (· == '\r') line) := by
  have hlast := List.head?_dropWhile_not (· == '\r') line.reverse
  constructor
  · rw [dropTrailing, List.getLast?_reverse]
    intro h
    rw [h] at hlast
    cases hlast
  · refine ⟨(line.reverse.takeWhile (· == '\r')).length, ?_⟩
    have hcrs : line.reverse.takeWhile (· == '\r') =
        List.replicate (line.reverse.takeWhile (· == '\r')).length '\r' :=
      List.eq_replicate_iff.mpr ⟨rfl, fun c hc => by simpa using List.mem_takeWhile_imp hc⟩
    rw [dropTrailing, ← List.reverse_replicate, ← hcrs, ← List.reverse_append,
      List.takeWhile_append_dropWhile, List.reverse_reverse]

/-- No place is past the end of the text. -/
theorem IsPlace.offset_le (h : IsPlace cs offset row column line) : offset ≤ byteLength cs := by
  obtain ⟨before, after, rfl, rfl, -⟩ := h.exists_split
  rw [byteLength_append]
  exact Nat.le_add_right _ _

/-- The line that is shown for a place is the line in which it is. -/
theorem IsPlace.lineAt? (h : IsPlace source.toList offset row column line) :
    lineAt? source offset = some (String.ofList (dropTrailing (· == '\r') line)) := by
  obtain ⟨before, after, hsplit, hoffset, -, hlast, htake⟩ := h.exists_split
  rw [Text.lineAt?, Nat.min_eq_left h.offset_le,
    splitAtByte?_eq_some_iff.mpr ⟨hsplit, hoffset⟩, Option.map_some]
  dsimp only
  rw [hlast, htake, List.take_append_drop]

/-- A position counts an offset past the end as the end. It has a location and the line there, or
neither of them. -/
theorem inSource_eq (file source : String) (offset : Nat) :
    SourcePos.inSource file source offset =
      { file
        location := location? source (min offset (byteLength source.toList))
        lineText := (location? source (min offset (byteLength source.toList))).bind fun _ =>
          lineAt? source (min offset (byteLength source.toList)) } := by
  have hline : lineAt? source offset =
      lineAt? source (min offset (byteLength source.toList)) := by
    rw [lineAt?, lineAt?, Nat.min_assoc, Nat.min_self]
  rw [SourcePos.inSource]
  cases location? source (min offset (byteLength source.toList)) with
  | none => rfl
  | some location => exact congrArg (SourcePos.mk file (some location)) hline

/-- Every byte of a text has a row and a column but those inside a character, and the text has no
bytes past its end. The row is that of the line in which the byte is, where a line feed is in the
line that it ends, and the column is the number of characters in front of it on this line. Different
bytes have different places, in the order of the bytes. The line that is shown for a byte is its own
without the carriage returns at its end; and a position in the text, the end of which stands for all
offsets past it, has both a location and a line or neither. -/
theorem locations_follow_lines (file source : String) :
    (∀ offset, location? source offset = none ↔
      byteLength source.toList < offset ∨ InsideCharacter source.toList offset) ∧
    (∀ offset location, location? source offset = some location ↔
      location.offset = offset ∧
        ∃ line, IsPlace source.toList offset location.row location.column line) ∧
    (∀ offset offset' location location', location? source offset = some location →
      location? source offset' = some location' →
        ((location.row, location.column) = (location'.row, location'.column) ↔
          offset = offset') ∧
        ((location.row < location'.row ∨
            location.row = location'.row ∧ location.column < location'.column) ↔
          offset < offset')) ∧
    (∀ offset row column line, IsPlace source.toList offset row column line →
      ∃ text, ShowsAs line text ∧ lineAt? source offset = some (String.ofList text)) ∧
    ∀ offset,
      (location? source (min offset (byteLength source.toList)) = none ∧
        SourcePos.inSource file source offset = { file }) ∨
      ∃ location text,
        location? source (min offset (byteLength source.toList)) = some location ∧
        lineAt? source (min offset (byteLength source.toList)) = some text ∧
        SourcePos.inSource file source offset =
          { file, location := some location, lineText := some text } := by
  refine ⟨fun _ => location?_eq_none_iff, fun _ _ => location?_eq_some_iff, ?_, ?_, ?_⟩
  · intro offset offset' location location' h h'
    obtain ⟨-, line, hplace⟩ := location?_eq_some_iff.mp h
    obtain ⟨-, line', hplace'⟩ := location?_eq_some_iff.mp h'
    refine ⟨⟨fun hsame => ?_, ?_⟩, hplace.precedes_iff hplace'⟩
    · obtain ⟨hrow, hcolumn⟩ := Prod.mk.inj hsame
      have hnot := (hplace.precedes_iff hplace').not
      have hnot' := (hplace'.precedes_iff hplace).not
      omega
    · rintro rfl
      rw [Option.some_inj.mp (h.symm.trans h')]
  · intro offset row column line h
    exact ⟨_, showsAs_dropTrailing line, h.lineAt?⟩
  · intro offset
    rw [inSource_eq]
    cases h : location? source (min offset (byteLength source.toList)) with
    | none => exact .inl ⟨rfl, rfl⟩
    | some location =>
      obtain ⟨-, line, hplace⟩ := location?_eq_some_iff.mp h
      refine .inr ⟨location, _, rfl, hplace.lineAt?, ?_⟩
      rw [Option.bind_some, hplace.lineAt?]

/-- A line with a character of two bytes and two carriage returns, an empty line, and a last line.
-/
def accented : String :=
  "é\r\r\n\nab"

/-- A byte inside a character, places in different lines, a line with carriage returns at its end,
and an offset past the end. -/
theorem locations_follow_lines_accented :
    location? accented 1 = none ∧ InsideCharacter accented.toList 1 ∧
      location? accented 4 = some ⟨4, 0, 3⟩ ∧ location? accented 7 = some ⟨7, 2, 1⟩ ∧
      (0 < 2 ∨ 0 = 2 ∧ 3 < 1 ↔ 4 < 7) ∧
      IsPlace accented.toList 4 0 3 ['é', '\r', '\r'] ∧
      (∃ text, ShowsAs ['é', '\r', '\r'] text ∧
        lineAt? accented 4 = some (String.ofList text)) ∧
      SourcePos.inSource "/a" accented 100 =
        { file := "/a", location := some ⟨8, 2, 2⟩, lineText := some "ab" } := by
  obtain ⟨hnone, hsome, horder, hline, hposition⟩ := locations_follow_lines "/a" accented
  have hinside : InsideCharacter accented.toList 1 :=
    ⟨[], 'é', "\r\r\n\nab".toList, rfl, by decide, by decide⟩
  have hplace : IsPlace accented.toList 4 0 3 ['é', '\r', '\r'] := ⟨rfl, by decide, by decide⟩
  have hplace' : IsPlace accented.toList 7 2 1 ['a', 'b'] := ⟨rfl, by decide, by decide⟩
  have h := (hsome 4 ⟨4, 0, 3⟩).mpr ⟨rfl, _, hplace⟩
  have h' := (hsome 7 ⟨7, 2, 1⟩).mpr ⟨rfl, _, hplace'⟩
  refine ⟨(hnone 1).mpr (.inr hinside), hinside, h, h', (horder 4 7 _ _ h h').2, hplace,
    hline 4 0 3 _ hplace, ?_⟩
  rcases hposition 100 with ⟨hnone, -⟩ | ⟨location, text, hlocation, htext, heq⟩
  · cases hnone
  · cases hlocation
    cases htext
    exact heq

end Text

end LayeredConfig
