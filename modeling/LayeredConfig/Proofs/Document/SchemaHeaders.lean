import LayeredConfig.Proofs.Document.LineEnds

/-!
# Headers of a schema

A name in a schema runs up to the next white space. So it takes the closing brackets with it when no
white space stands in front of them, and they have to be taken back from its end. The reader does
that only if no white space follows them: in front of a comment, or of blanks at the end of the
line, such a header is no header (`header_read_iff`).
-/

namespace LayeredConfig.Document

open Text

/-- A header of a schema as it is written on its line: as many brackets on each side of a name,
white space on both sides of the name and behind the brackets, and a comment behind the white space.
-/
structure SchemaHeader where
  depth : Nat
  /-- The white space in front of the name. -/
  before : List Char
  name : List Char
  /-- The white space between the name and the closing brackets. -/
  behind : List Char
  /-- The white space behind the closing brackets. -/
  gap : List Char
  /-- Nothing, or `#` and what follows it. -/
  comment : List Char
  depth_pos : 0 < depth
  isSpace_before : ∀ c ∈ before, isSpace c = true
  isSpace_behind : ∀ c ∈ behind, isSpace c = true
  isSpace_gap : ∀ c ∈ gap, isSpace c = true
  name_ne_nil : name ≠ []
  not_isWhitespace : ∀ c ∈ name, isWhitespace c = false
  head_ne : name.head? ≠ some '['
  getLast_ne : name.getLast? ≠ some ']'
  comment_head : ∀ c ∈ comment.head?, c = '#'
  comment_line : '\n' ∉ comment
  gap_ne_nil : comment ≠ [] → gap ≠ []

namespace SchemaHeader

variable (l : SchemaHeader) {rest : List Char}

/-- What stands behind the closing brackets. -/
def tail : List Char :=
  l.gap ++ l.comment

/-- The text of the line. -/
def chars : List Char :=
  List.replicate l.depth '[' ++
    (l.before ++ (l.name ++ (l.behind ++ (List.replicate l.depth ']' ++ l.tail))))

/-- The header that is written. -/
def item : Item :=
  .header l.depth l.depth (String.ofList l.name)

end SchemaHeader

/-! ## What stands around the name -/

/-- White space on a line is white space. -/
theorem isWhitespace_of_isSpace {c : Char} (h : isSpace c = true) : isWhitespace c = true := by
  have hspaces : [' ', '\t', '\r', '\x0b', '\x0c'].all isWhitespace = true := by decide
  exact List.all_eq_true.mp hspaces c (isSpace_iff.mp h)

/-- Brackets are taken back from the end of a name. -/
theorem dropTrailing_append_replicate {name : List Char} (h : name.getLast? ≠ some ']')
    (depth : Nat) : dropTrailing (· == ']') (name ++ List.replicate depth ']') = name := by
  have hstop : ∀ c ∈ name.reverse.head?, (c == ']') = false := by
    intro c hc
    rw [List.head?_reverse] at hc
    apply beq_false_of_ne
    rintro rfl
    exact h hc
  rw [dropTrailing, List.reverse_append, List.reverse_replicate,
    dropWhile_append_of_stop beq_of_mem_replicate hstop, List.reverse_reverse]

/-- A word of a schema is read up to the first white space. -/
theorem word_schema_append {name rest : List Char} (hne : name ≠ [])
    (hname : ∀ c ∈ name, isWhitespace c = false)
    (hrest : ∀ c ∈ rest.head?, isWhitespace c = true) :
    word .schema (name ++ rest) = some (name, rest) := by
  have hchars : ∀ c ∈ name, isNameChar .schema c = true := by
    intro c hc
    rw [isNameChar, hname c hc, Bool.not_false]
  have hstop : ∀ c ∈ rest.head?, isNameChar .schema c = false := by
    intro c hc
    rw [isNameChar, hrest c hc, Bool.not_true]
  rw [word, takeWhile_append_of_stop hchars hstop, dropWhile_append_of_stop hchars hstop]
  obtain ⟨c, name, rfl⟩ := List.exists_cons_of_ne_nil hne
  rfl

namespace SchemaHeader

variable (l : SchemaHeader) {rest : List Char}

/-- A name has no white space. -/
theorem isSpace_of_mem_name {c : Char} (hc : c ∈ l.name) : isSpace c = false := by
  apply Bool.eq_false_iff.mpr
  intro hspace
  have hblank := isWhitespace_of_isSpace hspace
  rw [l.not_isWhitespace c hc] at hblank
  exact Bool.false_ne_true hblank

/-- Behind the white space there is a comment, or the line ends. -/
theorem head_comment (hrest : atLineEnd rest = true) :
    ∀ c ∈ (l.comment ++ rest).head?, c = '#' ∨ c = '\n' := by
  intro c hc
  by_cases hcomment : l.comment = []
  · rw [hcomment] at hc
    exact .inr (atLineEnd_iff.mp hrest c hc)
  · rw [head?_append_of_ne_nil hcomment] at hc
    exact .inl (l.comment_head c hc)

/-- Behind the brackets and the white space stands the comment. -/
theorem skipSpaces_tail (hrest : atLineEnd rest = true) :
    skipSpaces (l.tail ++ rest) = l.comment ++ rest := by
  rw [tail, List.append_assoc]
  apply skipSpaces_append_of_stop l.isSpace_gap
  intro c hc
  rcases l.head_comment hrest c hc with rfl | rfl <;> decide

/-- Without white space behind the brackets there is no comment either. -/
theorem tail_of_gap_eq_nil (h : l.gap = []) : l.tail = [] := by
  have hcomment : l.comment = [] := not_imp_comm.mp l.gap_ne_nil (not_not_intro h)
  rw [tail, h, hcomment, List.append_nil]

/-- The closing brackets are followed by white space, if by anything. -/
theorem isWhitespace_head_tail (hrest : atLineEnd rest = true) :
    ∀ c ∈ (l.tail ++ rest).head?, isWhitespace c = true := by
  by_cases hgap : l.gap = []
  · rw [l.tail_of_gap_eq_nil hgap]
    intro c hc
    rw [atLineEnd_iff.mp hrest c hc]
    decide
  · rw [tail, List.append_assoc]
    exact forall_head_append_of_ne_nil hgap
      fun c hc => isWhitespace_of_isSpace (l.isSpace_gap c hc)

/-- White space follows the brackets exactly if the header has some there. -/
theorem startsWithSpace_tail (hrest : atLineEnd rest = true) :
    startsWithSpace (l.tail ++ rest) = true ↔ l.gap ≠ [] := by
  by_cases hgap : l.gap = []
  · have hnot : startsWithSpace rest ≠ true := by
      cases rest with
      | nil => exact Bool.false_ne_true
      | cons c rest =>
        rw [atLineEnd_iff.mp hrest c rfl]
        show isSpace '\n' ≠ true
        decide
    simp [l.tail_of_gap_eq_nil hgap, hgap, hnot]
  · obtain ⟨c, gap, hcons⟩ := List.exists_cons_of_ne_nil hgap
    have hspace := l.isSpace_gap c (by rw [hcons]; exact List.mem_cons_self)
    simp [tail, startsWithSpace, hcons, hspace]

/-- What stands behind the closing brackets is dropped with the item. -/
theorem skipTail_tail (hrest : atLineEnd rest = true) : skipTail (l.tail ++ rest) = rest := by
  have hline : skipLine l.comment = [] := skipLine_of_not_mem l.comment_line
  by_cases hcomment : l.comment = []
  · have hspaces := l.skipSpaces_tail hrest
    rw [hcomment, List.nil_append] at hspaces
    have hnone : startsComment (l.tail ++ rest) = false := by
      rw [startsComment, hspaces]
      apply beq_false_of_ne
      intro hhash
      exact absurd (atLineEnd_iff.mp hrest '#' hhash) (by decide)
    rw [skipTail, hnone, Bool.and_false, if_neg Bool.false_ne_true, hspaces]
  · have hspace := (l.startsWithSpace_tail hrest).mpr (l.gap_ne_nil hcomment)
    obtain ⟨c, comment, hcons⟩ := List.exists_cons_of_ne_nil hcomment
    have hhash : c = '#' := l.comment_head c (by rw [hcons]; rfl)
    have hsome : startsComment (l.tail ++ rest) = true := by
      rw [startsComment, l.skipSpaces_tail hrest, hcons, hhash]
      rfl
    rw [skipTail, hspace, hsome, Bool.and_self, if_pos rfl, l.skipSpaces_tail hrest,
      skipLine_append, if_pos hline, skipLine_of_atLineEnd hrest]

/-- The reader gets to the name. -/
theorem header_chars (rest : List Char) :
    header .schema (l.chars ++ rest) =
      (word .schema (l.name ++ (l.behind ++ (List.replicate l.depth ']' ++ (l.tail ++ rest))))).bind
        fun r => headerEnd .schema l.depth r.1 r.2 := by
  obtain ⟨c, name, hcons⟩ := List.exists_cons_of_ne_nil l.name_ne_nil
  have hc : isSpace c = false := l.isSpace_of_mem_name (by rw [hcons]; exact List.mem_cons_self)
  have hbracket : c ≠ '[' := by
    rintro rfl
    exact l.head_ne (by rw [hcons]; rfl)
  -- behind the opening brackets come white space or the name, whose first character is no bracket
  have hopening : ∀ d ∈ (l.before ++ (l.name ++ (l.behind ++ (List.replicate l.depth ']' ++
      (l.tail ++ rest))))).head?, (d == '[') = false := by
    apply forall_head_append fun d hd => beq_of_isSpace (by decide) (l.isSpace_before d hd)
    rw [hcons]
    rintro _ ⟨⟩
    exact beq_false_of_ne hbracket
  have hname : ∀ d ∈ (l.name ++ (l.behind ++ (List.replicate l.depth ']' ++
      (l.tail ++ rest)))).head?, isSpace d = false := by
    rw [hcons]
    rintro _ ⟨⟩
    exact hc
  have hsome : List.replicate l.depth '[' ≠ [] := by
    simpa using l.depth_pos.ne'
  simp only [chars, header, List.append_assoc,
    takeWhile_append_of_stop beq_of_mem_replicate hopening,
    dropWhile_append_of_stop beq_of_mem_replicate hopening, if_neg hsome, List.length_replicate,
    skipSpaces_append_of_stop l.isSpace_before hname]
  cases word .schema (l.name ++ (l.behind ++ (List.replicate l.depth ']' ++ (l.tail ++ rest)))) <;>
    rfl

/-- The closing brackets end in front of what stands behind them. -/
theorem not_bracket_head_tail (hrest : atLineEnd rest = true) :
    ∀ c ∈ (l.tail ++ rest).head?, (c == ']') = false := by
  intro c hc
  have hblank := l.isWhitespace_head_tail hrest c hc
  apply beq_false_of_ne
  rintro rfl
  exact absurd hblank (by decide)

/-- White space in front of the closing brackets ends the name. -/
theorem header_of_behind (h : l.behind ≠ []) (hrest : atLineEnd rest = true) :
    header .schema (l.chars ++ rest) = some (l.item, l.tail ++ rest) := by
  -- white space stands behind the name, so that the word ends with it
  have hend : ∀ c ∈ (l.behind ++ (List.replicate l.depth ']' ++ (l.tail ++ rest))).head?,
      isWhitespace c = true :=
    forall_head_append_of_ne_nil h fun c hc => isWhitespace_of_isSpace (l.isSpace_behind c hc)
  have hclosing : ∀ c ∈ (List.replicate l.depth ']' ++ (l.tail ++ rest)).head?,
      isSpace c = false := by
    obtain ⟨more, hmore⟩ := replicate_append_eq_cons l.depth_pos ']' (l.tail ++ rest)
    rw [hmore]
    rintro _ ⟨⟩
    decide
  have hsome : List.replicate l.depth ']' ≠ [] := by
    simpa using l.depth_pos.ne'
  have hstop := l.not_bracket_head_tail hrest
  rw [header_chars, word_schema_append l.name_ne_nil l.not_isWhitespace hend, Option.bind_some]
  simp only [headerEnd, skipSpaces_append_of_stop l.isSpace_behind hclosing,
    takeWhile_append_of_stop beq_of_mem_replicate hstop,
    dropWhile_append_of_stop beq_of_mem_replicate hstop, ne_eq, hsome, not_false_eq_true, if_true,
    List.length_replicate, item]

/-- Without it, the closing brackets are taken back from the end of the name, unless white space
follows them. -/
theorem header_of_behind_eq_nil (h : l.behind = []) (hrest : atLineEnd rest = true) :
    header .schema (l.chars ++ rest) = if l.gap = [] then some (l.item, rest) else none := by
  -- no white space stands behind the name, so that the word takes the closing brackets with it
  have hname : ∀ c ∈ l.name ++ List.replicate l.depth ']', isWhitespace c = false := by
    intro c hc
    rcases List.mem_append.mp hc with hc | hc
    · exact l.not_isWhitespace c hc
    · rw [List.eq_of_mem_replicate hc]
      decide
  have hne : l.name ++ List.replicate l.depth ']' ≠ [] :=
    List.append_ne_nil_of_left_ne_nil l.name_ne_nil _
  have hclosing : (l.comment ++ rest).takeWhile (· == ']') = [] := by
    apply takeWhile_of_head
    intro c hc
    rcases l.head_comment hrest c hc with rfl | rfl <;> decide
  have htrimmed : l.name ≠ l.name ++ List.replicate l.depth ']' := by
    simpa using l.depth_pos.ne'
  rw [header_chars, h, List.nil_append, ← List.append_assoc,
    word_schema_append hne hname (l.isWhitespace_head_tail hrest), Option.bind_some]
  simp only [headerEnd, l.skipSpaces_tail hrest, hclosing,
    dropTrailing_append_replicate l.getLast_ne]
  by_cases hgap : l.gap = []
  · have hspace : startsWithSpace (l.tail ++ rest) = false :=
      Bool.eq_false_iff.mpr fun hspace => (l.startsWithSpace_tail hrest).mp hspace hgap
    have hcomment : l.comment = [] := not_imp_comm.mp l.gap_ne_nil (not_not_intro hgap)
    simp [hgap, hspace, hcomment, l.name_ne_nil, htrimmed, item]
  · have hspace := (l.startsWithSpace_tail hrest).mpr hgap
    simp [hgap, hspace]

/-- So the header is found if white space stands in front of its closing brackets, or none behind
them. -/
theorem header_eq_some_iff (hrest : atLineEnd rest = true) :
    (∃ more, header .schema (l.chars ++ rest) = some (l.item, more) ∧ skipTail more = rest) ↔
      l.behind ≠ [] ∨ l.gap = [] := by
  by_cases hbehind : l.behind = []
  · rw [l.header_of_behind_eq_nil hbehind hrest]
    by_cases hgap : l.gap = []
    · simp [hgap, skipTail_of_atLineEnd hrest]
    · simp [hgap, hbehind]
  · rw [l.header_of_behind hbehind hrest]
    simp [hbehind, l.skipTail_tail hrest]

end SchemaHeader

/-! ## Items -/

section item

variable {mode : Mode} {cs more : List Char} {opening closing : Nat} {name : String}

/-- A command is no header. -/
theorem command_ne_header : command cs ≠ some (.header opening closing name, more) := by
  intro h
  unfold command at h
  split at h
  · split at h
    · cases h
    · split at h
      · split at h <;> cases h
      · cases h
  · cases h

/-- An assignment is no header. -/
theorem assign_ne_header : assign mode cs ≠ some (.header opening closing name, more) := by
  intro h
  unfold assign at h
  split at h
  · cases h
  · split at h
    · cases h
    · split at h <;> cases h

/-- Commands and assignments are no headers. -/
theorem item_eq_header_iff :
    item mode cs = some (.header opening closing name, more) ↔
      header mode cs = some (.header opening closing name, more) := by
  rw [item, Option.or_eq_some_iff, Option.or_eq_some_iff]
  constructor
  · rintro (hheader | ⟨-, hcommand | ⟨-, hassign⟩⟩)
    · exact hheader
    · exact absurd hcommand command_ne_header
    · exact absurd hassign assign_ne_header
  · exact .inl

end item

namespace SchemaHeader

variable (l : SchemaHeader) {rest : List Char}

/-- A header is neither blank nor a comment. -/
theorem skipBlank_chars (rest : List Char) :
    skipBlank false (l.chars ++ rest) = l.chars ++ rest := by
  obtain ⟨more, hmore⟩ := replicate_append_eq_cons l.depth_pos '[' _
  rw [chars, hmore]
  rfl

/-- The header is read as the next item exactly if white space ends its name, or nothing stands
behind the brackets. -/
theorem nextItem_eq_iff (hrest : atLineEnd rest = true) :
    nextItem .schema (l.chars ++ rest) = .item (l.chars ++ rest) l.item rest ↔
      l.behind ≠ [] ∨ l.gap = [] := by
  rw [← l.header_eq_some_iff hrest, nextItem_eq_item_iff, l.skipBlank_chars]
  simp [hrest, item, item_eq_header_iff]

/-- Whatever the line is taken for otherwise, it is no header. -/
theorem not_nextItem_of_behind_eq_nil (hbehind : l.behind = []) (hgap : l.gap ≠ [])
    (start more : List Char) : nextItem .schema l.chars ≠ .item start l.item more := by
  have hnone := l.header_of_behind_eq_nil hbehind (show atLineEnd [] = true from rfl)
  have hstart := l.skipBlank_chars []
  rw [List.append_nil] at hnone hstart
  rw [if_neg hgap] at hnone
  intro hnext
  obtain ⟨rfl, tail, hitem, -⟩ := nextItem_eq_item_iff.mp hnext
  rw [hstart, item, item_eq_header_iff, hnone] at hitem
  cases hitem

/-- A header of a schema is read as one header, with its depth and its name, if white space stands
in front of its closing brackets or none behind them. Otherwise the line is no header. -/
theorem header_read_iff (hrest : atLineEnd rest = true) :
    (nextItem .schema (l.chars ++ rest) = .item (l.chars ++ rest) l.item rest ↔
        l.behind ≠ [] ∨ l.gap = []) ∧
      (read .schema (String.ofList l.chars) = { items := [⟨0, l.item⟩], fault := none } ↔
        l.behind ≠ [] ∨ l.gap = []) := by
  refine ⟨l.nextItem_eq_iff hrest, ?_⟩
  rw [read, String.toList_ofList]
  constructor
  · intro hread
    by_contra hnot
    obtain ⟨hbehind, hgap⟩ := not_or.mp hnot
    -- whatever comes first in the line, the reading is not that one item
    cases hnext : nextItem .schema l.chars with
    | finished =>
      rw [readItems_of_finished _ hnext] at hread
      cases hread
    | malformed place =>
      rw [readItems_of_malformed _ hnext] at hread
      cases hread
    | item start i more =>
      rw [readItems_of_item _ hnext] at hread
      simp only [Reading.mk.injEq, List.cons.injEq, PlacedItem.mk.injEq] at hread
      rw [hread.1.1.2] at hnext
      exact l.not_nextItem_of_behind_eq_nil (not_not.mp hbehind) hgap start more hnext
  · intro hreads
    have hnext := (l.nextItem_eq_iff (show atLineEnd [] = true from rfl)).mpr hreads
    rw [List.append_nil] at hnext
    rw [readItems_of_item _ hnext, Nat.sub_self, readItems_of_finished _ rfl]

/-- A pattern that ends in a bracket, with white space and a comment around it. -/
def spaced : SchemaHeader where
  depth := 2
  before := ['\t']
  name := "a[0-9]é*".toList
  behind := [' ']
  gap := [' ', ' ']
  comment := "# ]".toList
  depth_pos := by decide
  isSpace_before := forall_mem_of_all (by decide)
  isSpace_behind := forall_mem_of_all (by decide)
  isSpace_gap := forall_mem_of_all (by decide)
  name_ne_nil := by decide
  not_isWhitespace := forall_mem_of_all (by decide)
  head_ne := by decide
  getLast_ne := by decide
  comment_head := fun _ hc => (Option.some_inj.mp hc).symm
  comment_line := by decide
  gap_ne_nil := by decide

/-- A pattern that ends in a bracket is the name of the header, with white space and a comment
around it. -/
theorem header_read_iff_spaced :
    spaced.chars = "[[\ta[0-9]é* ]]  # ]".toList ∧ atLineEnd "\nb = True".toList = true ∧
      read .schema (String.ofList spaced.chars) =
        { items := [⟨0, .header 2 2 "a[0-9]é*"⟩], fault := none } :=
  ⟨by decide, rfl,
    (spaced.header_read_iff (show atLineEnd "\nb = True".toList = true from rfl)).2.mpr
      (.inl (by decide))⟩

/-- A header with a comment behind it, and no white space inside the brackets. -/
def commented : SchemaHeader where
  depth := 1
  before := []
  name := "ab".toList
  behind := []
  gap := [' ']
  comment := "# c".toList
  depth_pos := by decide
  isSpace_before := forall_mem_of_all (by decide)
  isSpace_behind := forall_mem_of_all (by decide)
  isSpace_gap := forall_mem_of_all (by decide)
  name_ne_nil := by decide
  not_isWhitespace := forall_mem_of_all (by decide)
  head_ne := by decide
  getLast_ne := by decide
  comment_head := fun _ hc => (Option.some_inj.mp hc).symm
  comment_line := by decide
  gap_ne_nil := by decide

/-- It is a fault at the start of its line, and no header. -/
theorem commented_is_fault :
    commented.chars = "[ab] # c".toList ∧
      read .schema (String.ofList commented.chars) = { items := [], fault := some 0 } ∧
      read .schema (String.ofList commented.chars) ≠
        { items := [⟨0, commented.item⟩], fault := none } := by
  have hread : read .schema (String.ofList commented.chars) = { items := [], fault := some 0 } := by
    have hnext : nextItem .schema commented.chars = .malformed commented.chars := by decide
    rw [read, String.toList_ofList, readItems_of_malformed _ hnext, Nat.sub_self]
  refine ⟨by decide, hread, ?_⟩
  rw [hread]
  decide

end SchemaHeader

end LayeredConfig.Document
