import LayeredConfig.Proofs.Document.Lines

/-!
# Reading in front of a line end

An item can stand on its line alone, or a comment can follow behind white space. Either way nothing
is left for the item, and every reader of the grammar takes from a text `cs` in front of such a
`tail` what it takes from `cs` alone (`header_append_tail`, `target_append`, `value_append`). It may
stop earlier, when `cs` ends in white space, since that belongs to the comment behind it. So what is
left agrees once white space and comments have been dropped.

The exception are quoted values. Where `cs` ends between quotes, the value goes on in `tail`, so
that `value_append` has to be told that the quotes find what they find in `cs` alone.
-/

namespace LayeredConfig.Document

open Text

/-- The line ends here, or a comment follows behind white space. -/
def EndsItem (tail : List Char) : Prop :=
  atLineEnd tail = true ∨ startsWithSpace tail = true ∧ startsComment tail = true

variable {cs tail : List Char} {c : Char} {p : Char → Bool}

/-! ## White space and comments -/

/-- White space on a line is one of five characters. -/
theorem isSpace_iff : isSpace c = true ↔ c ∈ [' ', '\t', '\r', '\x0b', '\x0c'] := by
  simp [isSpace, or_assoc]

/-- A line ends where nothing follows, or a line feed. -/
theorem atLineEnd_iff : atLineEnd cs = true ↔ ∀ c ∈ cs.head?, c = '\n' := by
  cases cs <;> simp [atLineEnd]

/-- White space is skipped beyond a text only if the text has nothing else. -/
theorem skipSpaces_append (cs tail : List Char) :
    skipSpaces (cs ++ tail) =
      if skipSpaces cs = [] then skipSpaces tail else skipSpaces cs ++ tail := by
  by_cases h : cs.dropWhile isSpace = [] <;> simp [skipSpaces, List.dropWhile_append, h]

/-- A line is skipped beyond a text only if it does not end in the text. -/
theorem skipLine_append (cs tail : List Char) :
    skipLine (cs ++ tail) = if skipLine cs = [] then skipLine tail else skipLine cs ++ tail := by
  by_cases h : cs.dropWhile (· != '\n') = [] <;> simp [skipLine, List.dropWhile_append, h]

/-- White space is on the line that is skipped. -/
theorem skipLine_skipSpaces (cs : List Char) : skipLine (skipSpaces cs) = skipLine cs := by
  induction cs with
  | nil => rfl
  | cons c cs ih =>
    by_cases hc : isSpace c = true
    · have hline : c ≠ '\n' := by
        rintro rfl
        exact absurd hc (by decide)
      rw [skipSpaces, List.dropWhile_cons_of_pos hc, skipLine, skipLine,
        List.dropWhile_cons_of_pos (by simpa using hline)]
      exact ih
    · rw [skipSpaces, List.dropWhile_cons_of_neg hc]

/-- Behind a line that was skipped, it ends. -/
theorem atLineEnd_skipLine (cs : List Char) : atLineEnd (skipLine cs) = true := by
  apply atLineEnd_iff.mpr
  intro c hc
  have hstop := List.head?_dropWhile_not (· != '\n') cs
  rw [← skipLine, hc] at hstop
  simpa using hstop

/-- At the end of a line nothing of it is left to skip. -/
theorem skipLine_of_atLineEnd (h : atLineEnd cs = true) : skipLine cs = cs := by
  cases cs with
  | nil => rfl
  | cons c cs => exact List.dropWhile_cons_of_neg (by simp [atLineEnd_iff.mp h c rfl])

/-- At the end of a line there is no white space to skip. -/
theorem skipSpaces_of_atLineEnd (h : atLineEnd cs = true) : skipSpaces cs = cs := by
  cases cs with
  | nil => rfl
  | cons c cs =>
    obtain rfl := atLineEnd_iff.mp h c rfl
    rfl

/-- A text of one line is skipped as a whole. -/
theorem skipLine_of_not_mem (h : '\n' ∉ cs) : skipLine cs = [] := by
  apply List.dropWhile_eq_nil_iff.mpr
  intro c hc
  have hne : c ≠ '\n' := by
    rintro rfl
    exact h hc
  simpa using hne

/-- A text of one line that is at its end is empty. -/
theorem eq_nil_of_atLineEnd (h : atLineEnd cs = true) (hline : '\n' ∉ cs) : cs = [] := by
  rw [← skipLine_of_atLineEnd h, skipLine_of_not_mem hline]

/-- Something on a line that is left is no line end. -/
theorem not_atLineEnd_append (hne : cs ≠ []) (hline : '\n' ∉ cs) (tail : List Char) :
    ¬ atLineEnd (cs ++ tail) = true := by
  intro hend
  obtain ⟨c, cs, rfl⟩ := List.exists_cons_of_ne_nil hne
  obtain rfl := atLineEnd_iff.mp hend c rfl
  exact hline List.mem_cons_self

namespace EndsItem

/-- Where a line ends, an item can end. -/
theorem of_atLineEnd (h : atLineEnd tail = true) : EndsItem tail :=
  .inl h

/-- Nothing but white space and line feeds starts such a rest. -/
theorem head (h : EndsItem tail) : ∀ c ∈ tail.head?, c = '\n' ∨ isSpace c = true := by
  intro c hc
  rcases h with hline | ⟨hspace, -⟩
  · exact .inl (atLineEnd_iff.mp hline c hc)
  · rw [startsWithSpace, hc] at hspace
    exact .inr hspace

/-- Behind its white space there is a comment, or the end of the line. -/
theorem head_skipSpaces (h : EndsItem tail) :
    ∀ c ∈ (skipSpaces tail).head?, c = '\n' ∨ c = '#' := by
  intro c hc
  rcases h with hline | ⟨-, hcomment⟩
  · rw [skipSpaces_of_atLineEnd hline] at hc
    exact .inl (atLineEnd_iff.mp hline c hc)
  · rw [startsComment, hc] at hcomment
    exact .inr (Option.some_inj.mp (eq_of_beq hcomment))

/-- Where an item can end, the rest of its line is skipped. -/
theorem skipTail_eq (h : EndsItem tail) : skipTail tail = skipLine tail := by
  rcases h with hline | ⟨hspace, hcomment⟩
  · rw [skipTail_of_atLineEnd hline, skipLine_of_atLineEnd hline]
  · rw [skipTail, hspace, hcomment, Bool.and_self, if_pos rfl, skipLine_skipSpaces]

/-- Where an item can end, the rest of its line is blank. -/
theorem lineRestIsBlank (h : EndsItem tail) : lineRestIsBlank tail = true := by
  rw [Document.lineRestIsBlank, h.skipTail_eq]
  exact atLineEnd_skipLine tail

/-- A comment has white space in front of it. -/
theorem startsWithSpace (h : EndsItem tail) (hcomment : startsComment tail = true) :
    startsWithSpace tail = true := by
  rcases h with hline | ⟨hspace, -⟩
  · rw [startsComment, skipSpaces_of_atLineEnd hline] at hcomment
    exact absurd (atLineEnd_iff.mp hline '#' (eq_of_beq hcomment)) (by decide)
  · exact hspace

/-- It does not start with a character that is read. -/
theorem head_of_not (h : EndsItem tail) (hline : p '\n' = false)
    (hspace : ∀ c, isSpace c = true → p c = false) : ∀ c ∈ tail.head?, p c = false := by
  intro c hc
  rcases h.head c hc with rfl | hc
  · exact hline
  · exact hspace c hc

end EndsItem

/-- A text that is not empty starts as it does with something behind it. -/
theorem head?_append_of_ne_nil (h : cs ≠ []) (tail : List Char) :
    (cs ++ tail).head? = cs.head? := by
  obtain ⟨c, cs, rfl⟩ := List.exists_cons_of_ne_nil h
  rfl

/-- The same for white space at the start. -/
theorem startsWithSpace_append (h : cs ≠ []) (tail : List Char) :
    startsWithSpace (cs ++ tail) = startsWithSpace cs := by
  rw [startsWithSpace, head?_append_of_ne_nil h, startsWithSpace]

/-- A comment starts in what follows only if there is nothing but white space before it. -/
theorem startsComment_append (cs tail : List Char) :
    startsComment (cs ++ tail) =
      if skipSpaces cs = [] then startsComment tail else startsComment cs := by
  rw [startsComment, skipSpaces_append]
  split
  · rfl
  · rename_i hne
    rw [head?_append_of_ne_nil hne, startsComment]

/-- White space alone starts no comment. -/
theorem startsComment_of_skipSpaces_eq_nil (h : skipSpaces cs = []) : startsComment cs = false := by
  rw [startsComment, h]
  rfl

/-- White space alone is skipped behind an item. -/
theorem skipTail_of_skipSpaces_eq_nil (h : skipSpaces cs = []) : skipTail cs = [] := by
  rw [skipTail, startsComment_of_skipSpaces_eq_nil h, Bool.and_false,
    if_neg Bool.false_ne_true, h]

/-- What may follow an item goes on behind it: unless something else stands on its line, all of `cs`
is dropped, and what may be dropped of `tail`. -/
theorem skipTail_append (h : EndsItem tail) (cs : List Char) :
    skipTail (cs ++ tail) = if skipTail cs = [] then skipTail tail else skipTail cs ++ tail := by
  by_cases hempty : cs = []
  · rw [hempty, List.nil_append, if_pos (show skipTail [] = [] from rfl)]
  unfold skipTail
  rw [startsWithSpace_append hempty, startsComment_append, skipSpaces_append]
  by_cases hblank : skipSpaces cs = []
  · -- `cs` is white space, which joins that of `tail`
    have hspace : startsWithSpace cs = true := by
      obtain ⟨c, cs, rfl⟩ := List.exists_cons_of_ne_nil hempty
      exact List.dropWhile_eq_nil_iff.mp hblank c List.mem_cons_self
    have hnone := startsComment_of_skipSpaces_eq_nil hblank
    by_cases hcomment : startsComment tail = true
    · simp [hblank, hspace, hnone, hcomment, h.startsWithSpace hcomment]
    · simp [hblank, hspace, hnone, hcomment]
  · rw [if_neg hblank, if_neg hblank]
    split
    · -- a comment in `cs` takes up `tail` as far as the line goes
      have htail : (if startsWithSpace tail && startsComment tail then skipLine (skipSpaces tail)
          else skipSpaces tail) = skipLine tail := h.skipTail_eq
      rw [skipLine_append, htail]
    · rfl

/-- So white space and comments are all that is on the line if they are in `cs`. -/
theorem lineRestIsBlank_append (h : EndsItem tail) (cs : List Char) :
    lineRestIsBlank (cs ++ tail) = lineRestIsBlank cs := by
  have htail := h.lineRestIsBlank
  rw [lineRestIsBlank] at htail
  rw [lineRestIsBlank, lineRestIsBlank, skipTail_append h]
  split
  · rename_i hnil
    rw [htail, hnil]
    rfl
  · rename_i hne
    obtain ⟨c, rest, hrest⟩ := List.exists_cons_of_ne_nil hne
    rw [hrest]
    rfl

/-! ## Names and brackets -/

namespace EndsItem

/-- A name does not go on where an item can end. -/
theorem not_isNameChar (h : EndsItem tail) : ∀ c ∈ tail.head?, isNameChar .config c = false :=
  h.head_of_not (by decide) fun _ => not_isNameChar_of_isSpace

/-- Where an item can end, no character follows that is neither white space nor a line feed. -/
theorem not_beq (h : EndsItem tail) {b : Char} (hline : b ≠ '\n') (hb : isSpace b = false) :
    ∀ c ∈ tail.head?, (c == b) = false :=
  h.head_of_not (beq_false_of_ne hline.symm) fun _ => beq_of_isSpace hb

/-- A run of characters behind white space is in `cs`. -/
theorem takeWhile_skipSpaces (h : EndsItem tail) (hline : p '\n' = false) (hhash : p '#' = false)
    (hspace : ∀ c, isSpace c = true → p c = false) (cs : List Char) :
    (skipSpaces (cs ++ tail)).takeWhile p = (skipSpaces cs).takeWhile p := by
  rw [skipSpaces_append]
  split
  · rename_i hblank
    have hstop : ∀ c ∈ (skipSpaces tail).head?, p c = false := by
      intro c hc
      rcases h.head_skipSpaces c hc with rfl | rfl
      · exact hline
      · exact hhash
    rw [hblank, takeWhile_of_head hstop]
    rfl
  · exact takeWhile_append_of_head (h.head_of_not hline hspace)

/-- If there is one, `tail` is left behind it. -/
theorem dropWhile_skipSpaces (h : EndsItem tail) (hline : p '\n' = false)
    (hspace : ∀ c, isSpace c = true → p c = false) (hrun : (skipSpaces cs).takeWhile p ≠ []) :
    (skipSpaces (cs ++ tail)).dropWhile p = (skipSpaces cs).dropWhile p ++ tail := by
  have hne : skipSpaces cs ≠ [] := by
    intro hnil
    rw [hnil] at hrun
    exact hrun rfl
  rw [skipSpaces_append, if_neg hne]
  exact dropWhile_append_of_head (h.head_of_not hline hspace)

end EndsItem

/-- The rest of what was read, with `tail` behind it. -/
def withTail {α : Type} (tail : List Char) (r : α × List Char) : α × List Char :=
  (r.1, r.2 ++ tail)

/-- There is no word exactly if no character of a name comes first. -/
theorem word_eq_none_iff : word .config cs = none ↔ cs.takeWhile (isNameChar .config) = [] := by
  rw [word]
  split
  · rename_i hnone
    simp [hnone]
  · rename_i hne
    exact iff_of_false (by simp) hne

/-- A word does not depend on what follows the item. -/
theorem word_append_tail (h : EndsItem tail) (cs : List Char) :
    word .config (cs ++ tail) = (word .config cs).map (withTail tail) := by
  rw [word, word, takeWhile_append_of_head h.not_isNameChar,
    dropWhile_append_of_head h.not_isNameChar]
  split <;> rfl

/-- Nor does a word behind white space. -/
theorem word_skipSpaces_append (h : EndsItem tail) (cs : List Char) :
    word .config (skipSpaces (cs ++ tail)) =
      (word .config (skipSpaces cs)).map (withTail tail) := by
  have htake := h.takeWhile_skipSpaces (p := isNameChar .config) (by decide) (by decide)
    (fun _ => not_isNameChar_of_isSpace) cs
  by_cases hnone : (skipSpaces cs).takeWhile (isNameChar .config) = []
  · rw [word_eq_none_iff.mpr hnone, word_eq_none_iff.mpr (htake.trans hnone), Option.map_none]
  · have hne : skipSpaces cs ≠ [] := by
      intro hnil
      rw [hnil] at hnone
      exact hnone rfl
    rw [skipSpaces_append, if_neg hne]
    exact word_append_tail h (skipSpaces cs)

/-- The end of a header does not depend on what follows the item. -/
theorem headerEnd_append_tail (h : EndsItem tail) (opening : Nat) (name cs : List Char) :
    headerEnd .config opening name (cs ++ tail) =
      (headerEnd .config opening name cs).map (withTail tail) := by
  have htake := h.takeWhile_skipSpaces (p := (· == ']')) (by decide) (by decide)
    (fun _ => beq_of_isSpace (by decide)) cs
  simp only [headerEnd, htake]
  by_cases hclosing : (skipSpaces cs).takeWhile (· == ']') = []
  · simp [hclosing]
  · have hdrop := h.dropWhile_skipSpaces (by decide) (fun _ => beq_of_isSpace (by decide)) hclosing
    simp [hclosing, hdrop, withTail]

/-- A header does not depend on what follows the item. -/
theorem header_append_tail (h : EndsItem tail) (cs : List Char) :
    header .config (cs ++ tail) = (header .config cs).map (withTail tail) := by
  have hbracket := h.not_beq (b := '[') (by decide) (by decide)
  simp only [header, takeWhile_append_of_head hbracket, dropWhile_append_of_head hbracket,
    word_skipSpaces_append h]
  by_cases hopening : cs.takeWhile (· == '[') = []
  · simp [hopening]
  · rw [if_neg hopening, if_neg hopening]
    cases word .config (skipSpaces (cs.dropWhile (· == '['))) with
    | none => rfl
    | some r => exact headerEnd_append_tail h _ r.1 r.2

/-! ## Assignments -/

/-- What stands in front of the value of an assignment. -/
structure Target where
  marker : Option Marker
  key : List Char
  op : AssignOp

/-- The start of an assignment, up to its value. -/
def target (cs : List Char) : Option (Target × List Char) :=
  (word .config (marker cs).2).bind fun r =>
    (assignOp (skipSpaces r.2)).map fun a => (⟨(marker cs).1, r.1, a.1⟩, a.2)

/-- An assignment with a value. -/
def Target.item (t : Target) (value : List Char) : Item :=
  .assign t.marker (String.ofList t.key) t.op (String.ofList value)

/-- An assignment is its start and its value. -/
theorem assign_eq (cs : List Char) :
    assign .config cs =
      (target cs).map fun r => (r.1.item (value r.2).1, (value r.2).2) := by
  rw [assign, target]
  cases word .config (marker cs).2 with
  | none => rfl
  | some r =>
    dsimp only [Option.bind_some]
    rw [if_neg (by rintro ⟨⟨⟩, -⟩)]
    cases assignOp (skipSpaces r.2) <;> rfl

/-- A mark does not depend on what follows the item. -/
theorem marker_append (h : EndsItem tail) (cs : List Char) :
    marker (cs ++ tail) = withTail tail (marker cs) := by
  cases cs with
  | nil =>
    cases tail with
    | nil => rfl
    | cons c tail =>
      -- a mark is neither white space nor a line feed, which is all that `tail` may start with
      have hne (b : Char) (hline : b ≠ '\n') (hb : isSpace b = false) : c ≠ b := by
        simpa using h.not_beq hline hb c rfl
      exact marker_of_ne (hne '^' (by decide) (by decide)) (hne '!' (by decide) (by decide))
        (hne '~' (by decide) (by decide))
  | cons c cs =>
    by_cases hmandatory : c = '^'
    · subst hmandatory
      rfl
    by_cases hfinal : c = '!'
    · subst hfinal
      rfl
    by_cases htemporary : c = '~'
    · subst htemporary
      rfl
    rw [List.cons_append, marker_of_ne hmandatory hfinal htemporary,
      marker_of_ne hmandatory hfinal htemporary]
    rfl

/-- An operator is not divided between `cs` and `tail`. -/
theorem assignOp_append (h : EndsItem tail) (hne : cs ≠ []) :
    assignOp (cs ++ tail) = (assignOp cs).map (withTail tail) := by
  obtain ⟨c, cs, rfl⟩ := List.exists_cons_of_ne_nil hne
  by_cases hdeferred : c = '='
  · subst hdeferred
    rfl
  by_cases hcolon : c = ':'
  · subst hcolon
    cases cs with
    | nil =>
      cases tail with
      | nil => rfl
      | cons d tail =>
        -- the colon ends the text, and `tail` does not make it an operator
        have hd : d ≠ '=' := by simpa using h.not_beq (b := '=') (by decide) (by decide) d rfl
        simp [assignOp, hd]
    | cons d cs =>
      by_cases hd : d = '='
      · subst hd
        rfl
      · simp [assignOp, hd]
  · simp [assignOp, hdeferred, hcolon]

/-- Nor does an operator behind white space. -/
theorem assignOp_skipSpaces_append (h : EndsItem tail) (cs : List Char) :
    assignOp (skipSpaces (cs ++ tail)) = (assignOp (skipSpaces cs)).map (withTail tail) := by
  rw [skipSpaces_append]
  split
  · rename_i hblank
    rw [hblank]
    cases htail : skipSpaces tail with
    | nil => rfl
    | cons c rest =>
      rcases h.head_skipSpaces c (by rw [htail]; rfl) with rfl | rfl <;> rfl
  · rename_i hne
    exact assignOp_append h hne

/-- The start of an assignment does not depend on what follows the item. -/
theorem target_append (h : EndsItem tail) (cs : List Char) :
    target (cs ++ tail) = (target cs).map (withTail tail) := by
  rw [target, target, marker_append h, withTail]
  dsimp only
  rw [word_append_tail h]
  cases word .config (marker cs).2 with
  | none => rfl
  | some r =>
    dsimp only [Option.map_some, Option.bind_some, withTail]
    rw [assignOp_skipSpaces_append h]
    cases assignOp (skipSpaces r.2) <;> rfl

/-! ## Values -/

/-- Characters are dropped at the end as far as they go, perhaps to the first one. -/
theorem dropTrailing_cons (p : Char → Bool) (c : Char) (cs : List Char) :
    dropTrailing p (c :: cs) =
      if dropTrailing p cs = [] then (if p c then [] else [c]) else c :: dropTrailing p cs := by
  simp only [dropTrailing, List.reverse_cons, List.dropWhile_append, List.isEmpty_iff,
    List.reverse_eq_nil_iff]
  split
  · rename_i hnil
    by_cases hc : p c = true <;> simp [hc]
  · simp

/-- White space alone is an unquoted value. -/
theorem unquoted_of_skipSpaces_eq_nil (h : skipSpaces cs = []) : unquoted cs = (cs, []) := by
  induction cs with
  | nil => rfl
  | cons c cs ih =>
    have hall := List.dropWhile_eq_nil_iff.mp h
    have hrest : skipSpaces cs = [] :=
      List.dropWhile_eq_nil_iff.mpr fun d hd => hall d (List.mem_cons_of_mem c hd)
    have hline : c ≠ '\n' := by
      rintro rfl
      exact absurd (hall '\n' List.mem_cons_self) (by decide)
    rw [unquoted, startsComment, hrest, ih hrest]
    simp [hline]

/-- Nothing is left of white space at the end. -/
theorem dropTrailing_of_skipSpaces_eq_nil (h : skipSpaces cs = []) :
    dropTrailing isSpace cs = [] := by
  have hall := List.dropWhile_eq_nil_iff.mp h
  have hreverse : cs.reverse.dropWhile isSpace = [] :=
    List.dropWhile_eq_nil_iff.mpr fun c hc => hall c (List.mem_reverse.mp hc)
  rw [dropTrailing, hreverse]
  rfl

/-- White space in front is skipped. -/
theorem skipSpaces_cons_of_isSpace (h : isSpace c = true) (cs : List Char) :
    skipSpaces (c :: cs) = skipSpaces cs :=
  List.dropWhile_cons_of_pos h

/-- White space in front does not matter for whether a comment starts. -/
theorem startsComment_cons_of_isSpace (h : isSpace c = true) (cs : List Char) :
    startsComment (c :: cs) = startsComment cs := by
  rw [startsComment, skipSpaces_cons_of_isSpace h, startsComment]

/-- Where an item can end, an unquoted value is empty. -/
theorem unquoted_of_endsItem (h : EndsItem tail) : unquoted tail = ([], tail) := by
  cases tail with
  | nil => rfl
  | cons c tail =>
    rw [unquoted, if_pos]
    rcases h with hline | ⟨hspace, hcomment⟩
    · exact .inl (atLineEnd_iff.mp hline c rfl)
    · rw [startsComment_cons_of_isSpace hspace] at hcomment
      exact .inr ⟨hspace, hcomment⟩

/-- A value without quotes ends where `tail` starts, or at the white space in front of it. -/
theorem unquoted_append (h : EndsItem tail) (cs : List Char) :
    dropTrailing isSpace (unquoted (cs ++ tail)).1 = dropTrailing isSpace (unquoted cs).1 ∧
      skipTail (unquoted (cs ++ tail)).2 = skipTail ((unquoted cs).2 ++ tail) := by
  induction cs with
  | nil =>
    rw [List.nil_append, unquoted_of_endsItem h]
    exact ⟨rfl, rfl⟩
  | cons c cs ih =>
    by_cases hjoins : skipSpaces (c :: cs) = [] ∧ startsComment tail = true
    · -- the value ends here, since a comment stands behind the white space that is left
      obtain ⟨hblank, hcomment⟩ := hjoins
      have hspace : startsWithSpace (c :: cs) = true :=
        List.dropWhile_eq_nil_iff.mp hblank c List.mem_cons_self
      have hends : EndsItem (c :: cs ++ tail) := by
        refine .inr ⟨hspace, ?_⟩
        rw [startsComment_append, if_pos hblank, hcomment]
      rw [unquoted_of_endsItem hends, unquoted_of_skipSpaces_eq_nil hblank, skipTail_append h,
        if_pos (skipTail_of_skipSpaces_eq_nil hblank), dropTrailing_of_skipSpaces_eq_nil hblank]
      exact ⟨rfl, rfl⟩
    · -- otherwise the value ends at the same characters, whatever follows
      have hsame : (c = '\n' ∨ isSpace c = true ∧ startsComment (cs ++ tail) = true) ↔
          (c = '\n' ∨ isSpace c = true ∧ startsComment cs = true) := by
        apply or_congr_right
        apply and_congr_right
        intro hspace
        rw [startsComment_append]
        split
        · rename_i hblank
          rw [skipSpaces_cons_of_isSpace hspace] at hjoins
          simp [hblank, startsComment_of_skipSpaces_eq_nil hblank] at hjoins ⊢
          exact hjoins
        · exact Iff.rfl
      rw [List.cons_append, unquoted, unquoted, if_congr hsame rfl rfl]
      split
      · exact ⟨rfl, rfl⟩
      · refine ⟨?_, ih.2⟩
        rw [dropTrailing_cons, dropTrailing_cons, ih.1]

/-- The first kind of quotes that fits a value. -/
def quotedValue (cs : List Char) : Option (List Char × List Char) :=
  quotes.findSome? fun q => quoted q.1 q.2 cs

/-- A value is empty in front of a comment or a line end, and otherwise quoted or unquoted. -/
theorem valueAfterSpaces_eq (cs : List Char) :
    valueAfterSpaces cs =
      if cs.head? = some '#' then ([], skipLine cs)
      else if atLineEnd cs = true then ([], cs)
      else (quotedValue cs).getD (dropTrailing isSpace (unquoted cs).1, (unquoted cs).2) := by
  rw [valueAfterSpaces]
  congr 2
  split
  · rename_i r hquoted
    rw [show quotedValue cs = some r from hquoted, Option.getD_some]
  · rename_i hquoted
    rw [show quotedValue cs = none from hquoted, Option.getD_none]

/-- Skipping what may follow an item skips a line that ends in front of `tail`, too. -/
theorem skipTail_skipLine_append (h : EndsItem tail) (cs : List Char) :
    skipTail (skipLine (cs ++ tail)) = skipTail (skipLine cs ++ tail) := by
  rw [skipLine_append]
  split
  · rename_i hnil
    rw [hnil, List.nil_append, skipTail_of_atLineEnd (atLineEnd_skipLine tail), h.skipTail_eq]
  · rfl

/-- A value does not depend on what follows the item if the quoted one in it does not. -/
theorem valueAfterSpaces_append (h : EndsItem tail) (hne : cs ≠ [])
    (hquoted : quotedValue (cs ++ tail) = (quotedValue cs).map (withTail tail)) :
    (valueAfterSpaces (cs ++ tail)).1 = (valueAfterSpaces cs).1 ∧
      skipTail (valueAfterSpaces (cs ++ tail)).2 =
        skipTail ((valueAfterSpaces cs).2 ++ tail) := by
  have hline : atLineEnd (cs ++ tail) = atLineEnd cs := by
    obtain ⟨c, cs, rfl⟩ := List.exists_cons_of_ne_nil hne
    rfl
  rw [valueAfterSpaces_eq, valueAfterSpaces_eq cs, head?_append_of_ne_nil hne, hline, hquoted]
  by_cases hcomment : cs.head? = some '#'
  · rw [if_pos hcomment, if_pos hcomment]
    exact ⟨rfl, skipTail_skipLine_append h cs⟩
  rw [if_neg hcomment, if_neg hcomment]
  split
  · exact ⟨rfl, rfl⟩
  · cases quotedValue cs with
    | none => exact unquoted_append h cs
    | some r => exact ⟨rfl, rfl⟩

/-- There is no value in white space, with or without a comment behind it. -/
theorem valueAfterSpaces_of_endsItem (h : EndsItem tail) :
    (valueAfterSpaces (skipSpaces tail)).1 = [] ∧
      skipTail (valueAfterSpaces (skipSpaces tail)).2 = skipTail tail := by
  rw [valueAfterSpaces_eq, h.skipTail_eq]
  split
  · rw [skipLine_skipSpaces, skipTail_of_atLineEnd (atLineEnd_skipLine tail)]
    exact ⟨rfl, rfl⟩
  · rename_i hcomment
    -- without a comment the white space reaches to the end of the line
    have hline : atLineEnd (skipSpaces tail) = true := by
      apply atLineEnd_iff.mpr
      intro c hc
      exact (h.head_skipSpaces c hc).resolve_right fun heq => hcomment (heq ▸ hc)
    rw [if_pos hline, skipTail_of_atLineEnd hline, ← skipLine_skipSpaces,
      skipLine_of_atLineEnd hline]
    exact ⟨rfl, rfl⟩

/-- What is read as a value, provided that the quotes find in front of `tail` what they find
without it. -/
theorem value_append (h : EndsItem tail)
    (hquoted : skipSpaces cs ≠ [] → quotedValue (skipSpaces cs ++ tail) =
      (quotedValue (skipSpaces cs)).map (withTail tail)) :
    (value (cs ++ tail)).1 = (value cs).1 ∧
      skipTail (value (cs ++ tail)).2 = skipTail ((value cs).2 ++ tail) := by
  rw [value, value, skipSpaces_append]
  split
  · rename_i hblank
    rw [hblank]
    exact valueAfterSpaces_of_endsItem h
  · rename_i hne
    exact valueAfterSpaces_append h hne (hquoted hne)

/-! ## Quotes -/

variable {quote : List Char} {multiline : Bool} {r : List Char × List Char}

/-- Quotes are made of quotation marks. -/
def AreMarks (quote : List Char) : Prop :=
  quote ≠ [] ∧ ∀ c ∈ quote, c = '"' ∨ c = '\''

/-- All kinds of quotes are made of quotation marks. -/
theorem areMarks_of_mem {q : List Char × Bool} (h : q ∈ quotes) : AreMarks q.1 := by
  simp only [quotes, List.mem_cons, List.not_mem_nil, or_false] at h
  rcases h with rfl | rfl | rfl | rfl <;> simp [AreMarks]

/-- Marks are not divided between `cs` and `tail`. -/
theorem isPrefixOf_append (h : EndsItem tail) (hmarks : ∀ c ∈ quote, c = '"' ∨ c = '\'')
    (cs : List Char) : quote.isPrefixOf (cs ++ tail) = quote.isPrefixOf cs := by
  induction quote generalizing cs with
  | nil => rw [List.isPrefixOf_nil_left, List.isPrefixOf_nil_left]
  | cons a quote ih =>
    obtain ⟨ha, hquote⟩ := List.forall_mem_cons.mp hmarks
    cases cs with
    | nil =>
      cases tail with
      | nil => rfl
      | cons c tail =>
        -- what follows the item does not start with a mark, so that none is completed by it
        have hne : (c == a) = false := by
          rcases ha with rfl | rfl
          · exact h.not_beq (by decide) (by decide) c rfl
          · exact h.not_beq (by decide) (by decide) c rfl
        rw [List.nil_append, List.isPrefixOf_cons_cons, Bool.beq_comm, hne, Bool.false_and]
        rfl
    | cons c cs =>
      rw [List.cons_append, List.isPrefixOf_cons_cons, List.isPrefixOf_cons_cons, ih hquote]

/-- A value that is closed in `cs` ends there. -/
theorem quotedBody_append_of_eq_some (h : EndsItem tail) (hmarks : AreMarks quote)
    (hbody : quotedBody quote multiline cs = some r) :
    quotedBody quote multiline (cs ++ tail) = some (withTail tail r) := by
  fun_induction quotedBody quote multiline cs generalizing r with
  | case1 => cases hbody
  | case2 c cs hquote =>
    cases hbody
    have hlength : quote.length ≤ (c :: cs).length :=
      (List.isPrefixOf_iff_prefix.mp hquote).length_le
    -- the closing marks are in `cs`, for what follows does not start with a mark
    rw [← isPrefixOf_append h hmarks.2, List.cons_append] at hquote
    rw [List.cons_append, quotedBody_of_quote hquote, ← List.cons_append,
      List.drop_append_of_le_length hlength]
    rfl
  | case3 => cases hbody
  | case4 e cs hquote ih =>
    obtain ⟨s, hs, rfl⟩ := Option.map_eq_some_iff.mp hbody
    rw [List.cons_append, List.cons_append, quotedBody_escape, ih hs]
    · rfl
    · rw [← List.cons_append, ← List.cons_append, isPrefixOf_append h hmarks.2]
      exact Bool.eq_false_iff.mpr hquote
  | case5 => cases hbody
  | case6 c cs hquote hbackslash hline ih =>
    obtain ⟨s, hs, rfl⟩ := Option.map_eq_some_iff.mp hbody
    rw [List.cons_append, quotedBody_plain _ hbackslash, ih hs]
    · rfl
    · intro hc
      simpa [hc] using hline
    · rw [← List.cons_append, isPrefixOf_append h hmarks.2]
      exact Bool.eq_false_iff.mpr hquote

/-- Quotes fit in front of `tail` if they do without it, provided that the value between them ends
at the same place. -/
theorem quoted_append (h : EndsItem tail) (hmarks : AreMarks quote)
    (hbody : quote.isPrefixOf cs = true →
      quotedBody quote multiline (cs.drop quote.length ++ tail) =
        (quotedBody quote multiline (cs.drop quote.length)).map (withTail tail)) :
    quoted quote multiline (cs ++ tail) = (quoted quote multiline cs).map (withTail tail) := by
  rw [quoted, quoted, isPrefixOf_append h hmarks.2]
  split
  · rename_i hquote
    have hlength := (List.isPrefixOf_iff_prefix.mp hquote).length_le
    rw [List.drop_append_of_le_length hlength, hbody hquote, Option.filter_map]
    congr 2
    funext r
    exact lineRestIsBlank_append h r.2
  · rfl

/-! ## Items -/

/-- A comment ends with its line. -/
theorem skipBlank_comment_append (hline : '\n' ∉ cs) (h : atLineEnd tail = true) :
    skipBlank true (cs ++ tail) = skipBlank false tail := by
  induction cs with
  | nil =>
    cases tail with
    | nil => rfl
    | cons c tail =>
      obtain rfl := atLineEnd_iff.mp h c rfl
      rfl
  | cons c cs ih =>
    rw [List.mem_cons, not_or] at hline
    rw [List.cons_append, skipBlank, if_neg (Ne.symm hline.1), ih hline.2]

section nextItem

variable {mode : Mode} {start rest : List Char} {i : Item}

/-- There is no item in an empty text. -/
theorem item_nil (mode : Mode) : item mode [] = none := by
  cases mode <;> rfl

/-- What comes next depends on what is left behind the blank lines and comments. -/
theorem nextItem_congr {cs' : List Char}
    (h : skipBlank false cs = skipBlank false cs') : nextItem mode cs = nextItem mode cs' := by
  rw [nextItem, nextItem, h]

/-- What does not start with the mark of a command is a header or an assignment. -/
theorem item_of_head (hcommand : cs.head? ≠ some '@') :
    item .config cs = (header .config cs).or (assign .config cs) := by
  have hnone : command cs = none := by
    cases cs with
    | nil => rfl
    | cons c cs =>
      apply command_of_ne
      rintro rfl
      exact hcommand rfl
  rw [item, hnone, Option.none_or]

/-- The next item stands behind blank lines and comments, and nothing else is on its line. -/
theorem nextItem_eq_item_iff :
    nextItem mode cs = .item start i rest ↔
      skipBlank false cs = start ∧
        ∃ more, item mode start = some (i, more) ∧ skipTail more = rest ∧
          atLineEnd rest = true := by
  rw [nextItem]
  split
  · rename_i hblank
    rw [hblank]
    constructor
    · intro h
      cases h
    · rintro ⟨rfl, more, hitem, -⟩
      rw [item_nil] at hitem
      cases hitem
  · -- there is something behind the blank lines, which is an item or not
    split
    · rename_i hnone
      constructor
      · intro h
        cases h
      · rintro ⟨rfl, more, hitem, -⟩
        rw [hnone] at hitem
        cases hitem
    · rename_i i' more hitem
      constructor
      · intro h
        split at h
        · rename_i hline
          cases h
          exact ⟨rfl, more, hitem, rfl, hline⟩
        · cases h
      · rintro ⟨rfl, more', hitem', rfl, hline⟩
        rw [hitem] at hitem'
        cases hitem'
        rw [if_pos hline]

end nextItem

end LayeredConfig.Document
