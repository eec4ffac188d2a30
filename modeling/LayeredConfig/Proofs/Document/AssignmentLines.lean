import LayeredConfig.Proofs.Document.SchemaHeaders
import LayeredConfig.Proofs.Document.SingleMarks
import LayeredConfig.Proofs.Document.Written

/-!
# Assignments and their lines

An assignment is read from what is written for it up to its value, in every mode, and the value
from the rest of its line (`AssignmentLine`). So unless the value starts with triple marks, the item
ends on its line but for one case, and what it assigns depends on the line alone but for one case
(`ends_on_its_line_iff`).
-/

namespace LayeredConfig.Document

open Text

variable {mode : Mode} {cs rest more v w : List Char} {c : Char} {i : Item} {t : Target}

/-! ## The start of an assignment -/

/-- An assignment up to its value as it may be written, with white space in front of its operator.
-/
structure Target.FitsIn (t : Target) (mode : Mode) (gap : List Char) : Prop where
  key_ne_nil : t.key ≠ []
  isNameChar_key : ∀ c ∈ t.key, isNameChar mode c = true
  isSpace_gap : ∀ c ∈ gap, isSpace c = true
  gap_ne_nil : mode = .schema → gap ≠ []
  /-- Without a mark, the name does not start like one. -/
  head_key : t.marker = none → ∀ c ∈ t.key.head?, c ≠ '^' ∧ c ≠ '!' ∧ c ≠ '~'

/-- No name goes on beyond a line, in either mode. -/
theorem isNameChar_lineFeed (mode : Mode) : isNameChar mode '\n' = false := by
  cases mode <;> decide

/-- No name has white space in it, in either mode. -/
theorem isNameChar_of_isSpace (mode : Mode) (h : isSpace c = true) : isNameChar mode c = false := by
  cases mode with
  | config => exact not_isNameChar_of_isSpace h
  | schema => rw [isNameChar, isWhitespace_of_isSpace h, Bool.not_true]

/-- A word is read exactly if the text starts with characters of a name, and it takes all of
them. -/
theorem word_eq_some_iff {name : List Char} :
    word mode cs = some (name, rest) ↔
      name ≠ [] ∧ (∀ c ∈ name, isNameChar mode c = true) ∧
        (∀ c ∈ rest.head?, isNameChar mode c = false) ∧ cs = name ++ rest := by
  constructor
  · intro h
    rw [word] at h
    split at h
    · cases h
    · rename_i hne
      obtain ⟨rfl, rfl⟩ := Prod.mk.inj (Option.some_inj.mp h)
      refine ⟨hne, fun c hc => List.mem_takeWhile_imp hc, ?_,
        List.takeWhile_append_dropWhile.symm⟩
      intro c hc
      have hstop := List.head?_dropWhile_not (isNameChar mode) cs
      rw [hc] at hstop
      simpa using hstop
  · rintro ⟨hne, hname, hrest, rfl⟩
    rw [word, takeWhile_append_of_stop hname hrest, dropWhile_append_of_stop hname hrest]
    obtain ⟨c, name, rfl⟩ := List.exists_cons_of_ne_nil hne
    rfl

/-- A text from which no mark is read does not start with one. -/
theorem head_of_marker_eq_none (h : (marker cs).1 = none) :
    ∀ c ∈ cs.head?, c ≠ '^' ∧ c ≠ '!' ∧ c ≠ '~' := by
  rintro c hc
  obtain ⟨cs, rfl⟩ := List.head?_eq_some_iff.mp hc
  refine ⟨?_, ?_, ?_⟩ <;> rintro rfl <;> cases h

namespace Target.FitsIn

variable {gap : List Char}

/-- The mark that is written in front of a key is read back. -/
theorem marker_chars (h : t.FitsIn mode gap) (more : List Char) :
    Document.marker (Marker.chars t.marker ++ (t.key ++ more)) = (t.marker, t.key ++ more) := by
  obtain ⟨c, key, hkey⟩ := List.exists_cons_of_ne_nil h.key_ne_nil
  cases hmarker : t.marker with
  | some m => cases m <;> rfl
  | none =>
    obtain ⟨hmandatory, hfinal, htemporary⟩ := h.head_key hmarker c (by rw [hkey]; rfl)
    rw [hkey]
    exact marker_of_ne hmandatory hfinal htemporary

/-- The name ends in front of the white space, or in front of the operator. -/
theorem word_chars (h : t.FitsIn mode gap) (text : List Char) :
    word mode (t.key ++ (gap ++ (t.op.chars ++ text))) =
      some (t.key, gap ++ (t.op.chars ++ text)) := by
  refine word_eq_some_iff.mpr ⟨h.key_ne_nil, h.isNameChar_key, ?_, rfl⟩
  have hspace : ∀ c ∈ gap, isNameChar mode c = false :=
    fun c hc => isNameChar_of_isSpace mode (h.isSpace_gap c hc)
  cases mode with
  | config => exact forall_head_append hspace fun c hc => (head_assignOp t.op text c hc).2
  | schema => exact forall_head_append_of_ne_nil (h.gap_ne_nil rfl) hspace

/-- An assignment is read from the start that is written for it, and its value from the rest. -/
theorem assign_chars (h : t.FitsIn mode gap) (text : List Char) :
    assign mode (t.chars gap ++ text) = some (t.item (value text).1, (value text).2) := by
  have hspaces : skipSpaces (gap ++ (t.op.chars ++ text)) = t.op.chars ++ text :=
    skipSpaces_append_of_stop h.isSpace_gap fun c hc => (head_assignOp t.op text c hc).1
  have hgap : ¬ (mode = .schema ∧ (!startsWithSpace (gap ++ (t.op.chars ++ text))) = true) := by
    rintro ⟨hmode, hstarts⟩
    have hne := h.gap_ne_nil hmode
    obtain ⟨c, gap', rfl⟩ := List.exists_cons_of_ne_nil hne
    have hspace : startsWithSpace (c :: gap' ++ (t.op.chars ++ text)) = true :=
      h.isSpace_gap c List.mem_cons_self
    rw [hspace] at hstarts
    cases hstarts
  have hmarker := h.marker_chars (gap ++ (t.op.chars ++ text))
  simp only [Target.chars, List.append_assoc]
  rw [assign, hmarker, h.word_chars]
  dsimp only
  rw [if_neg hgap, hspaces, assignOp_chars]
  rfl

end Target.FitsIn

/-- Assignments are read from what is written for them, and from nothing else. -/
theorem assign_eq_some (h : assign mode cs = some (i, rest)) :
    ∃ t gap text, Target.FitsIn t mode gap ∧ cs = t.chars gap ++ text ∧ i = t.item (value text).1 ∧
      rest = (value text).2 := by
  rw [assign] at h
  split at h
  · cases h
  rename_i key afterKey hword
  split at h
  · cases h
  rename_i hgap
  split at h
  · cases h
  rename_i op text hop
  obtain ⟨rfl, rfl⟩ := Prod.mk.inj (Option.some_inj.mp h)
  obtain ⟨hne, hkey, -, hcs⟩ := word_eq_some_iff.mp hword
  obtain ⟨gap, hspaces, hsplit⟩ := exists_spaces afterKey
  -- what was read is put together again: the mark, the key, the white space and the operator
  have hwritten : cs = (Target.mk (marker cs).1 key op).chars gap ++ text := by
    calc cs = Marker.chars (marker cs).1 ++ (marker cs).2 := (chars_marker cs).symm
      _ = Marker.chars (marker cs).1 ++ (key ++ (gap ++ skipSpaces afterKey)) := by
        rw [← hsplit, hcs]
      _ = Marker.chars (marker cs).1 ++ (key ++ (gap ++ (op.chars ++ text))) := by
        rw [assignOp_eq_some hop]
      _ = _ := by simp only [Target.chars, List.append_assoc]
  refine ⟨⟨(marker cs).1, key, op⟩, gap, text, ⟨hne, hkey, hspaces, ?_, ?_⟩, hwritten, rfl, rfl⟩
  · -- without white space, the operator would stand right behind the name
    rintro rfl rfl
    have hstarts : startsWithSpace afterKey = false := by
      rw [hsplit, assignOp_eq_some hop, List.nil_append]
      cases op <;> rfl
    exact hgap ⟨rfl, by rw [hstarts]; rfl⟩
  · intro (hmarker : (marker cs).1 = none) c hc
    have hsame := chars_marker cs
    rw [hmarker, hcs] at hsame
    apply head_of_marker_eq_none hmarker c
    rw [← hsame]
    exact (head?_append_of_ne_nil hne afterKey).trans hc

/-! ## Headers and commands in front of a line end -/

/-- A word does not depend on the lines that follow. -/
theorem word_append_of_atLineEnd (mode : Mode) (cs : List Char) (h : atLineEnd more = true) :
    word mode (cs ++ more) = (word mode cs).map (withTail more) := by
  have hstop : ∀ c ∈ more.head?, isNameChar mode c = false :=
    head_of_atLineEnd h (isNameChar_lineFeed mode)
  rw [word, word, takeWhile_append_of_head hstop, dropWhile_append_of_head hstop]
  split <;> rfl

/-- White space is skipped in the line only. -/
theorem skipSpaces_append_of_atLineEnd (cs : List Char) (h : atLineEnd more = true) :
    skipSpaces (cs ++ more) = skipSpaces cs ++ more :=
  dropWhile_append_of_head (head_of_atLineEnd h (by decide))

/-- Whether a line starts with white space does not depend on the lines that follow. -/
theorem startsWithSpace_append_of_atLineEnd (cs : List Char) (h : atLineEnd more = true) :
    startsWithSpace (cs ++ more) = startsWithSpace cs := by
  by_cases hcs : cs = []
  · subst hcs
    cases more with
    | nil => rfl
    | cons c more =>
      obtain rfl := atLineEnd_iff.mp h c rfl
      rfl
  · exact startsWithSpace_append hcs more

/-- Behind white space that was skipped there is none. -/
theorem startsWithSpace_skipSpaces (cs : List Char) : startsWithSpace (skipSpaces cs) = false := by
  have hstop := List.head?_dropWhile_not isSpace cs
  rw [startsWithSpace, skipSpaces]
  cases h : (cs.dropWhile isSpace).head? with
  | none => rfl
  | some c =>
    rw [h] at hstop
    simpa using hstop

/-- White space is skipped up to a text that does not start with any. -/
theorem skipSpaces_append_of_startsWithSpace {spaces : List Char}
    (hspaces : ∀ c ∈ spaces, isSpace c = true) (h : startsWithSpace cs = false) :
    skipSpaces (spaces ++ cs) = cs := by
  apply skipSpaces_append_of_stop hspaces
  intro c hc
  rwa [startsWithSpace, hc] at h

/-- The end of a header does not depend on the lines that follow. -/
theorem headerEnd_append_of_atLineEnd (mode : Mode) (opening : Nat) (name cs : List Char)
    (h : atLineEnd more = true) :
    headerEnd mode opening name (cs ++ more) =
      (headerEnd mode opening name cs).map (withTail more) := by
  have hbracket : ∀ c ∈ more.head?, (c == ']') = false := head_of_atLineEnd h (by decide)
  simp only [headerEnd, skipSpaces_append_of_atLineEnd cs h, takeWhile_append_of_head hbracket,
    dropWhile_append_of_head hbracket, startsWithSpace_append_of_atLineEnd cs h]
  split
  · rfl
  · split <;> rfl

/-- In every mode, what a line begins with is a header or none whatever lines follow. -/
theorem header_append_of_atLineEnd (mode : Mode) (cs : List Char) (h : atLineEnd more = true) :
    header mode (cs ++ more) = (header mode cs).map (withTail more) := by
  have hbracket : ∀ c ∈ more.head?, (c == '[') = false := head_of_atLineEnd h (by decide)
  simp only [header, takeWhile_append_of_head hbracket, dropWhile_append_of_head hbracket,
    skipSpaces_append_of_atLineEnd _ h, word_append_of_atLineEnd mode _ h]
  split
  · rfl
  · cases word mode (skipSpaces (cs.dropWhile (· == '['))) with
    | none => rfl
    | some r => exact headerEnd_append_of_atLineEnd mode _ r.1 r.2 h

/-- A command is found where it is closed, whatever follows. -/
theorem command_eq_none_of_append (h : command (cs ++ more) = none) (hmore : EndsItem more) :
    command cs = none := by
  cases cs with
  | nil => rfl
  | cons c cs =>
    by_cases hc : c = '@'
    · subst hc
      rw [List.cons_append, command_eq, commandName_append hmore] at h
      rw [command_eq]
      cases hname : commandName cs with
      | none => rfl
      | some r =>
        rw [hname, Option.map_some, Option.bind_some] at h
        rw [Option.bind_some, Option.map_eq_none_iff]
        -- an argument that is closed in front stays closed there
        by_contra hsome
        obtain ⟨a, ha⟩ := Option.ne_none_iff_exists'.mp hsome
        rw [withTail, argument_append ha] at h
        cases h
    · exact command_of_ne hc

/-- An argument is missing exactly if no parenthesis closes it. -/
theorem argument_eq_none_iff : argument cs = none ↔ ')' ∉ cs := by
  have hnone : cs.dropWhile (· != ')') = [] ↔ ')' ∉ cs := by
    rw [List.dropWhile_eq_nil_iff]
    constructor
    · intro h hmem
      simpa using h ')' hmem
    · intro h c hc
      rw [bne_iff_ne]
      rintro rfl
      exact h hc
  rw [argument, ← hnone]
  split
  · rename_i hrest
    simp [hrest]
  · rename_i hnil
    simp [hnil]

/-- No command comes about by what is appended, unless that closes an argument. -/
theorem command_append_eq_none (h : command cs = none) (hmore : EndsItem more)
    (hclose : ')' ∉ more) : command (cs ++ more) = none := by
  cases cs with
  | nil =>
    cases more with
    | nil => rfl
    | cons c more =>
      exact command_of_ne (by simpa using hmore.not_beq (b := '@') (by decide) (by decide) c rfl)
  | cons c cs =>
    by_cases hc : c = '@'
    · subst hc
      rw [List.cons_append, command_eq, commandName_append hmore]
      rw [command_eq] at h
      cases hname : commandName cs with
      | none => rfl
      | some r =>
        rw [hname, Option.bind_some, Option.map_eq_none_iff, argument_eq_none_iff] at h
        rw [Option.map_some, Option.bind_some, Option.map_eq_none_iff, argument_eq_none_iff]
        exact List.not_mem_append h hclose
    · exact command_of_ne hc

/-! ## Items -/

/-- A header is no assignment. -/
theorem header_ne_item : header mode cs ≠ some (t.item v, rest) := by
  intro h
  simp only [header, headerEnd] at h
  repeat' split at h
  all_goals cases h

/-- A command is no assignment. -/
theorem command_ne_item : command cs ≠ some (t.item v, rest) := by
  intro h
  unfold command at h
  repeat' split at h
  all_goals cases h

/-- An assignment is read exactly if there is no header and no command in front of it. -/
theorem item_eq_assign_iff :
    item mode cs = some (t.item v, rest) ↔
      header mode cs = none ∧ command cs = none ∧ assign mode cs = some (t.item v, rest) := by
  rw [item, Option.or_eq_some_iff, Option.or_eq_some_iff]
  constructor
  · rintro (hheader | ⟨hheader, hcommand | hassign⟩)
    · exact absurd hheader header_ne_item
    · exact absurd hcommand command_ne_item
    · exact ⟨hheader, hassign⟩
  · rintro ⟨hheader, hassign⟩
    exact .inr ⟨hheader, .inr hassign⟩

/-- An assignment determines its start and its value. -/
theorem Target.item_inj {t' : Target} (h : t.item v = t'.item w) : t = t' ∧ v = w := by
  cases t
  cases t'
  obtain ⟨rfl, hkey, rfl, hvalue⟩ := Item.assign.inj h
  obtain rfl := String.ofList_injective hkey
  exact ⟨rfl, String.ofList_injective hvalue⟩

/-- What blank lines and comments are dropped in front of, is not dropped. -/
theorem skipBlank_of_head {inComment : Bool} (h : skipBlank inComment cs = c :: rest)
    (more : List Char) : skipBlank false (c :: more) = c :: more := by
  induction cs generalizing inComment with
  | nil => cases inComment <;> cases h
  | cons d cs ih =>
    cases inComment with
    | true =>
      simp only [skipBlank] at h
      split at h <;> exact ih h
    | false =>
      simp only [skipBlank] at h
      split at h
      · exact ih h
      · rename_i hblank
        split at h
        · exact ih h
        · rename_i hcomment
          obtain ⟨rfl, -⟩ := List.cons.inj h
          rw [skipBlank, if_neg hblank, if_neg hcomment]

/-- Whatever lines follow, the item is read from a line, unless a command is: its argument may span
lines. -/
def OnItsLine (mode : Mode) (line : List Char) (i : Item) : Prop :=
  ∀ more, atLineEnd more = true → command (line ++ more) = none →
    nextItem mode (line ++ more) = .item (line ++ more) i more

/-- A line with an assignment on it. -/
structure AssignmentLine (mode : Mode) where
  start : Target
  /-- The white space in front of the operator. -/
  gap : List Char
  /-- The white space behind the operator. -/
  spaces : List Char
  /-- The value, as far as it is on the line, and what stands behind it. -/
  text : List Char
  fits : start.FitsIn mode gap
  isSpace_spaces : ∀ c ∈ spaces, isSpace c = true
  startsWithSpace_text : startsWithSpace text = false
  not_mem_text : '\n' ∉ text

namespace AssignmentLine

variable (l : AssignmentLine mode)

/-- The line as it is written. -/
def chars : List Char :=
  l.start.chars l.gap ++ (l.spaces ++ l.text)

/-- A line with an assignment is not empty. -/
theorem chars_ne_nil : l.chars ≠ [] := by
  have hop : l.start.op.chars ≠ [] := by
    cases l.start.op <;> exact List.cons_ne_nil _ _
  simp [chars, Target.chars, hop]

/-- In front of the value, just its white space is skipped. -/
theorem skipSpaces_text (h : atLineEnd more = true) :
    skipSpaces (l.spaces ++ (l.text ++ more)) = l.text ++ more := by
  apply skipSpaces_append_of_startsWithSpace l.isSpace_spaces
  rw [startsWithSpace_append_of_atLineEnd l.text h, l.startsWithSpace_text]

/-- What stands in front of the value determines where it starts. -/
theorem text_append (h : atLineEnd more = true) :
    l.text ++ more =
      skipSpaces ((skipSpaces ((l.chars ++ more).drop
        (Marker.chars l.start.marker ++ l.start.key).length)).drop l.start.op.chars.length) := by
  have hgap : skipSpaces (l.gap ++ (l.start.op.chars ++ (l.spaces ++ (l.text ++ more)))) =
      l.start.op.chars ++ (l.spaces ++ (l.text ++ more)) :=
    skipSpaces_append_of_stop l.fits.isSpace_gap fun c hc => (head_assignOp l.start.op _ c hc).1
  have hchars : l.chars ++ more = (Marker.chars l.start.marker ++ l.start.key) ++
      (l.gap ++ (l.start.op.chars ++ (l.spaces ++ (l.text ++ more)))) := by
    simp only [chars, Target.chars, List.append_assoc]
  rw [hchars, List.drop_left, hgap, List.drop_left, l.skipSpaces_text h]

/-- The assignment is read in front of any lines. -/
theorem item_chars (hheader : header mode l.chars = none) (h : atLineEnd more = true)
    (hcommand : command (l.chars ++ more) = none) :
    item mode (l.chars ++ more) =
      some (l.start.item (valueAfterSpaces (l.text ++ more)).1,
        (valueAfterSpaces (l.text ++ more)).2) := by
  refine item_eq_assign_iff.mpr ⟨?_, hcommand, ?_⟩
  · rw [header_append_of_atLineEnd mode _ h, hheader, Option.map_none]
  · have hassign := l.fits.assign_chars (l.spaces ++ (l.text ++ more))
    rw [value, l.skipSpaces_text h] at hassign
    rw [← hassign, chars]
    simp only [List.append_assoc]

/-- Without an escape at its end, the line has the value on it. -/
theorem value_text (htriple : ¬ StartsTriple l.text) (hpending : ¬ Pending l.text)
    (h : atLineEnd more = true) :
    (valueAfterSpaces (l.text ++ more)).1 = (valueAfterSpaces l.text).1 ∧
      skipTail (valueAfterSpaces (l.text ++ more)).2 = more := by
  have hspaces : skipSpaces l.text = l.text :=
    skipSpaces_append_of_startsWithSpace (List.forall_mem_nil _) l.startsWithSpace_text
  rw [← hspaces] at htriple hpending
  have hvalue := value_append_of_not_pending l.not_mem_text htriple hpending h
  rwa [value, value, skipSpaces_append_of_atLineEnd l.text h, hspaces] at hvalue

end AssignmentLine

/-- An assignment stands on a line. -/
theorem exists_assignmentLine (h : item mode cs = some (t.item v, rest)) :
    ∃ (l : AssignmentLine mode) (more : List Char), l.start = t ∧ cs = l.chars ++ more ∧
      atLineEnd more = true ∧ v = (valueAfterSpaces (l.text ++ more)).1 ∧
      rest = (valueAfterSpaces (l.text ++ more)).2 := by
  obtain ⟨-, -, hassign⟩ := item_eq_assign_iff.mp h
  obtain ⟨t', gap, text, hfits, rfl, hitem, rfl⟩ := assign_eq_some hassign
  obtain ⟨rfl, rfl⟩ := Target.item_inj hitem
  obtain ⟨spaces, hspaces, hsplit⟩ := exists_spaces text
  -- the line of the value is cut off at the first line feed
  have hline : (skipSpaces text).takeWhile (· != '\n') ++ skipLine (skipSpaces text) =
      skipSpaces text :=
    List.takeWhile_append_dropWhile
  have hstarts := startsWithSpace_skipSpaces text
  rw [← hline, startsWithSpace_append_of_atLineEnd _ (atLineEnd_skipLine _)] at hstarts
  refine ⟨⟨t, gap, spaces, _, hfits, hspaces, hstarts, fun hmem => ?_⟩, skipLine (skipSpaces text),
    rfl, ?_, atLineEnd_skipLine _, ?_⟩
  · simpa using List.mem_takeWhile_imp hmem
  · rw [AssignmentLine.chars, List.append_assoc, List.append_assoc, hline, ← hsplit]
  · rw [hline, value]
    exact ⟨rfl, rfl⟩

namespace AssignmentLine

variable (l : AssignmentLine mode)

/-- The value ends on the line unless it goes on behind an escaped line feed. -/
theorem rest_eq_iff (htriple : ¬ StartsTriple l.text) (h : atLineEnd more = true)
    (hrest : lineRestIsBlank (valueAfterSpaces (l.text ++ more)).2 = true) :
    skipTail (valueAfterSpaces (l.text ++ more)).2 = more ↔ ¬ Continues (l.text ++ more) := by
  have htriple' : ¬ StartsTriple (l.text ++ more) := by
    rwa [startsTriple_append (.of_atLineEnd h)]
  obtain ⟨taken, htaken, hcontinues⟩ := exists_taken htriple'
  have hline : skipLine (l.text ++ more) = more := by
    rw [skipLine_append, if_pos (skipLine_of_not_mem l.not_mem_text), skipLine_of_atLineEnd h]
  rw [htaken] at hline
  rw [← hcontinues, ← skipTail_eq_iff hrest, hline]

/-- The value depends on the line alone, unless the line ends within an escape. -/
theorem onItsLine_iff (htriple : ¬ StartsTriple l.text) (hheader : header mode l.chars = none)
    (hstart : ∀ more, skipBlank false (l.chars ++ more) = l.chars ++ more)
    (h : atLineEnd more = true) (hcommand : command (l.chars ++ more) = none)
    (hv : v = (valueAfterSpaces (l.text ++ more)).1) :
    OnItsLine mode l.chars (l.start.item v) ↔ ¬ Pending l.text := by
  constructor
  · intro honLine hpending
    -- the line has one value if nothing follows, and another one if the next line closes the marks
    have hvalue (more' : List Char) (h' : atLineEnd more' = true)
        (hcommand' : command (l.chars ++ more') = none) :
        v = (valueAfterSpaces (l.text ++ more')).1 := by
      obtain ⟨-, left, hitem, -⟩ := nextItem_eq_item_iff.mp (honLine more' h' hcommand')
      rw [l.item_chars hheader h' hcommand'] at hitem
      exact (Target.item_inj (Prod.mk.inj (Option.some_inj.mp hitem)).1).2.symm
    -- a pending line takes a mark at the start of the next line as its end
    obtain ⟨mark, hmark, hline, hnext⟩ := value_of_pending hpending htriple
    have hnone : command l.chars = none := command_eq_none_of_append hcommand (.of_atLineEnd h)
    have hclose : ')' ∉ ['\n', mark] := by
      simpa using (hmark.ne (by decide)).symm
    have halone := hvalue [] rfl (by rwa [List.append_nil])
    have hclosed := hvalue ['\n', mark] rfl
      (command_append_eq_none hnone (.of_atLineEnd rfl) hclose)
    rw [List.append_nil] at halone
    rw [← hclosed, halone] at hnext
    exact hline hnext
  · intro hpending more' h' hcommand'
    obtain ⟨hvalue, -⟩ := l.value_text htriple hpending h
    obtain ⟨hvalue', hrest⟩ := l.value_text htriple hpending h'
    refine nextItem_eq_item_iff.mpr ⟨hstart more', _, ?_, hrest, h'⟩
    rw [l.item_chars hheader h' hcommand', hvalue', hv, hvalue]

end AssignmentLine

/-- An assignment whose value does not start with triple marks ends on its line, unless the value is
in single marks and has an escaped line feed. What it assigns depends on that line alone, unless
the line ends within an escape between such marks. -/
theorem ends_on_its_line_iff {start : List Char}
    (h : nextItem mode cs = .item start (t.item v) rest) :
    ∃ (l : AssignmentLine mode) (more : List Char), l.start = t ∧ start = l.chars ++ more ∧
      atLineEnd more = true ∧
      (¬ StartsTriple l.text →
        (rest = more ↔ ¬ Continues (l.text ++ more)) ∧
          (OnItsLine mode l.chars (t.item v) ↔ ¬ Pending l.text)) := by
  obtain ⟨hblank, left, hitem, rfl, hend⟩ := nextItem_eq_item_iff.mp h
  obtain ⟨l, more, rfl, rfl, hmore, hv, rfl⟩ := exists_assignmentLine hitem
  obtain ⟨hheader, hcommand, -⟩ := item_eq_assign_iff.mp hitem
  rw [header_append_of_atLineEnd mode _ hmore, Option.map_eq_none_iff] at hheader
  have hstart (more' : List Char) : skipBlank false (l.chars ++ more') = l.chars ++ more' := by
    obtain ⟨c, chars, hchars⟩ := List.exists_cons_of_ne_nil l.chars_ne_nil
    rw [hchars] at hblank ⊢
    exact skipBlank_of_head hblank _
  exact ⟨l, more, rfl, rfl, hmore, fun htriple =>
    ⟨l.rest_eq_iff htriple hmore hend, l.onItsLine_iff htriple hheader hstart hmore hcommand hv⟩⟩

/-- An assignment on a line that ends in a backslash: behind an escaped backslash and a mark, it
belongs to a comment. -/
def commented : List Char :=
  "@k := 'it\\'s \\\\' # 'x\\\nb'\n".toList

/-- What stands in front of its value. -/
def commentedStart : Target :=
  ⟨none, "@k".toList, .immediate⟩

/-- The item ends on its line, which ends in a backslash: that one is in a comment behind the
value. -/
theorem ends_on_its_line_iff_commented :
    nextItem .schema commented =
        .item commented (commentedStart.item "it's \\".toList) "\nb'\n".toList ∧
      ∃ (l : AssignmentLine .schema) (more : List Char), l.start = commentedStart ∧
        commented = l.chars ++ more ∧ atLineEnd more = true ∧ ¬ StartsTriple l.text ∧
        ("\nb'\n".toList = more ↔ ¬ Continues (l.text ++ more)) ∧
        (OnItsLine .schema l.chars (commentedStart.item "it's \\".toList) ↔
          ¬ Pending l.text) := by
  have hnext : nextItem .schema commented =
      .item commented (commentedStart.item "it's \\".toList) "\nb'\n".toList := by
    decide +kernel
  obtain ⟨l, more, hstart, hchars, hmore, hends⟩ := ends_on_its_line_iff hnext
  have htext : l.text ++ more = "'it\\'s \\\\' # 'x\\\nb'\n".toList := by
    rw [l.text_append hmore, hstart, ← hchars]
    rfl
  have htriple : ¬ StartsTriple l.text := by
    rw [← startsTriple_append (.of_atLineEnd hmore), htext]
    decide
  exact ⟨hnext, l, more, hstart, hchars, hmore, htriple, hends htriple⟩

/-- A line that ends within an escape. Its value does not start with triple marks. -/
def openLine : List Char :=
  "a = \"x\\".toList

/-- What stands behind that line. -/
def behindOpenLine : List Char :=
  "\nb = y\"\n".toList

/-- The value takes the next line. -/
theorem openLine_takes_next_line :
    openLine = "a = ".toList ++ "\"x\\".toList ∧ ¬ StartsTriple "\"x\\".toList ∧
      nextItem .config (openLine ++ behindOpenLine) =
        .item (openLine ++ behindOpenLine) (.assign none "a" .deferred "x\nb = y") "\n".toList ∧
      "\n".toList ≠ behindOpenLine := by
  have hnext : nextItem .config (openLine ++ behindOpenLine) =
      .item (openLine ++ behindOpenLine) (.assign none "a" .deferred "x\nb = y") "\n".toList := by
    decide +kernel
  exact ⟨by decide, by decide, hnext, by decide⟩

end LayeredConfig.Document
