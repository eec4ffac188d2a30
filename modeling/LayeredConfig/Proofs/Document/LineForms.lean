import LayeredConfig.Proofs.Document.Written
import LayeredConfig.Proofs.Text.SplitOn
import Mathlib.Data.List.Forall2
import Mathlib.Data.List.ReduceOption

/-!
# The lines of a plain text

In a text without backslashes, triple quotes and commands no item spans lines. Every line is read by
itself, and it can have four forms (`Form`): it is empty, a comment, a header, or an assignment.
Such a text is read to its end if all its lines have one of these forms, and then it has the items
that stand on them. Otherwise reading stops within the first line that has none of them
(`read_plain`).

Two things are proved of a line. In front of a line end the reader finds what it finds on the line
alone (`itemOnLine_append`), and what it finds there is what the form of the line says
(`form_some_iff`).
-/

namespace LayeredConfig

namespace Document

open Text

/-- What may stand behind a header: white space, and a comment if there is some. -/
inductive IsTail : List Char → Prop
  | blank {spaces : List Char} (hspaces : ∀ c ∈ spaces, isSpace c = true) : IsTail spaces
  | comment {spaces : List Char} (hspaces : ∀ c ∈ spaces, isSpace c = true) (hne : spaces ≠ [])
      (text : List Char) : IsTail (spaces ++ '#' :: text)

/-- The forms of a line behind its leading white space, and the item that is on it, if there is one.
The value of an assignment is read from the rest of its line, whatever stands there. -/
inductive Form : List Char → Option Item → Prop
  | empty : Form [] none
  | comment (text : List Char) : Form ('#' :: text) none
  | header {opening closing : Nat} {name : String} {before behind tail : List Char}
      (hopening : 0 < opening) (hbefore : ∀ c ∈ before, isSpace c = true) (hname : IsWord name)
      (hbehind : ∀ c ∈ behind, isSpace c = true) (hclosing : 0 < closing) (htail : IsTail tail) :
      Form
        (List.replicate opening '[' ++
          (before ++ (name.toList ++ (behind ++ (List.replicate closing ']' ++ tail)))))
        (some (.header opening closing name))
  | assign (marker : Option Marker) {key : String} (hkey : IsWord key) {gap : List Char}
      (hgap : ∀ c ∈ gap, isSpace c = true) (op : AssignOp) (text : List Char) :
      Form (Marker.chars marker ++ (key.toList ++ (gap ++ (op.chars ++ text))))
        (some (.assign marker key op (String.ofList (value text).1)))

/-- Text in which a quoted value cannot get past the end of its line. -/
structure StaysOnLine (cs : List Char) : Prop where
  no_backslash : '\\' ∉ cs
  no_double : ¬ ['"', '"', '"'] <:+: cs
  no_single : ¬ ['\'', '\'', '\''] <:+: cs

/-- A text in which no item can span lines. -/
structure IsPlain (cs : List Char) : Prop extends StaysOnLine cs where
  /-- No line has a command on it. -/
  no_command : ∀ line ∈ splitOn '\n' cs, (skipSpaces line).head? ≠ some '@'

variable {cs rest line tail : List Char} {c : Char}

/-! ## Values on a line -/

/-- A part of such a text is such a text. -/
theorem StaysOnLine.of_infix (h : StaysOnLine cs) (hrest : rest <:+: cs) : StaysOnLine rest where
  no_backslash hmem := h.no_backslash (hrest.subset hmem)
  no_double hdouble := h.no_double (hdouble.trans hrest)
  no_single hsingle := h.no_single (hsingle.trans hrest)

/-- A line feed ends the search for a single quotation mark. -/
theorem quotedBody_lineFeed {mark : Char} (hmark : mark = '"' ∨ mark = '\'') (cs : List Char) :
    quotedBody [mark] false ('\n' :: cs) = none := by
  rw [quotedBody.eq_def]
  rcases hmark with rfl | rfl <;> simp [List.isPrefixOf_cons_cons]

/-- Without backslashes, a value in single marks is closed on its line if at all. -/
theorem quotedBody_append_of_atLineEnd {mark : Char} (hmark : mark = '"' ∨ mark = '\'')
    (hcs : '\\' ∉ cs) (h : atLineEnd rest = true) :
    quotedBody [mark] false (cs ++ rest) =
      (quotedBody [mark] false cs).map (withTail rest) := by
  induction cs with
  | nil =>
    cases rest with
    | nil => rfl
    | cons c rest =>
      obtain rfl := atLineEnd_iff.mp h c rfl
      exact quotedBody_lineFeed hmark rest
  | cons c cs ih =>
    rw [List.mem_cons, not_or] at hcs
    obtain ⟨hbackslash, hcs⟩ := hcs
    by_cases hc : c = mark
    · have hquote (cs : List Char) : [mark].isPrefixOf (c :: cs) = true := by
        simp [hc]
      rw [List.cons_append, quotedBody_of_quote (hquote _), quotedBody_of_quote (hquote _)]
      rfl
    · have hquote (cs : List Char) : [mark].isPrefixOf (c :: cs) = false := by
        simp [List.isPrefixOf_cons_cons, Ne.symm hc]
      by_cases hline : c = '\n'
      · rw [hline, List.cons_append, quotedBody_lineFeed hmark, quotedBody_lineFeed hmark]
        rfl
      · rw [List.cons_append, quotedBody_plain (hquote _) (Ne.symm hbackslash) (absurd · hline),
          quotedBody_plain (hquote _) (Ne.symm hbackslash) (absurd · hline), ih hcs,
          Option.map_map, Option.map_map]
        rfl

/-- Quotes find in front of a line end what they find without it. -/
theorem quotedValue_append (hcs : StaysOnLine cs) (h : atLineEnd rest = true) :
    quotedValue (cs ++ rest) = (quotedValue cs).map (withTail rest) := by
  have hends : EndsItem rest := .of_atLineEnd h
  -- triple marks do not occur, so that nothing is opened by them
  have htriple {mark : Char} (hmark : mark = '"' ∨ mark = '\'')
      (hnot : ¬ [mark, mark, mark] <:+: cs) :
      quoted [mark, mark, mark] true (cs ++ rest) =
        (quoted [mark, mark, mark] true cs).map (withTail rest) := by
    apply quoted_append hends
    · exact ⟨by simp, by simpa using hmark⟩
    · intro hquote
      exact absurd (List.isPrefixOf_iff_prefix.mp hquote).isInfix hnot
  have hsingle {mark : Char} (hmark : mark = '"' ∨ mark = '\'') :
      quoted [mark] false (cs ++ rest) = (quoted [mark] false cs).map (withTail rest) := by
    apply quoted_append hends
    · exact ⟨by simp, by simpa using hmark⟩
    · intro _
      exact quotedBody_append_of_atLineEnd hmark
        (fun hmem => hcs.no_backslash (List.mem_of_mem_drop hmem)) h
  simp only [quotedValue, quotes, List.findSome?_cons, List.findSome?_nil,
    htriple (.inl rfl) hcs.no_double, htriple (.inr rfl) hcs.no_single, hsingle (.inl rfl),
    hsingle (.inr rfl)]
  cases quoted ['"', '"', '"'] true cs <;> cases quoted ['\'', '\'', '\''] true cs <;>
    cases quoted ['"'] false cs <;> cases quoted ['\''] false cs <;> rfl

/-! ## What stands behind an item -/

/-- On a line, what may follow a header is what is dropped behind it. -/
theorem isTail_iff (hline : '\n' ∉ tail) : IsTail tail ↔ skipTail tail = [] := by
  constructor
  · rintro (hspaces | ⟨hspaces, hne, text⟩)
    · exact skipTail_of_skipSpaces_eq_nil (List.dropWhile_eq_nil_iff.mpr hspaces)
    · rename_i spaces
      have hskip : skipSpaces (spaces ++ '#' :: text) = '#' :: text := by
        apply skipSpaces_append_of_stop hspaces
        rintro _ ⟨⟩
        decide
      have hstarts : startsWithSpace (spaces ++ '#' :: text) = true := by
        obtain ⟨c, spaces, rfl⟩ := List.exists_cons_of_ne_nil hne
        exact hspaces c List.mem_cons_self
      have hcomment : startsComment (spaces ++ '#' :: text) = true := by
        rw [startsComment, hskip]
        rfl
      rw [skipTail, hstarts, hcomment, Bool.and_self, if_pos rfl, hskip]
      exact skipLine_of_not_mem fun hmem => hline (List.mem_append_right spaces hmem)
  · intro h
    -- the white space first, behind which there is a comment or nothing
    obtain ⟨spaces, hspaces, hsplit⟩ := exists_spaces tail
    rw [skipTail] at h
    split at h
    · rename_i hcomment
      obtain ⟨hstarts, hcomment⟩ := Bool.and_eq_true_iff.mp hcomment
      obtain ⟨text, htext⟩ := List.head?_eq_some_iff.mp (eq_of_beq hcomment)
      have hne : spaces ≠ [] := by
        rintro rfl
        rw [hsplit, List.nil_append, htext] at hstarts
        exact absurd (show isSpace '#' = true from hstarts) (by decide)
      rw [hsplit, htext]
      exact .comment hspaces hne text
    · rw [hsplit, h, List.append_nil]
      exact .blank hspaces

/-- What may stand behind a header does not start with a bracket. -/
theorem IsTail.not_bracket (h : IsTail tail) : ∀ c ∈ tail.head?, (c == ']') = false := by
  have hspace : ∀ c, isSpace c = true → (c == ']') = false := fun _ => beq_of_isSpace (by decide)
  cases h with
  | blank hspaces => exact fun c hc => hspace c (hspaces c (List.mem_of_mem_head? hc))
  | comment hspaces hne text =>
    exact forall_head_append_of_ne_nil hne fun c hc => hspace c (hspaces c hc)

/-- Behind a value there are only blanks and a comment on its line. -/
theorem lineRestIsBlank_value (cs : List Char) : lineRestIsBlank (value cs).2 = true := by
  have hline {rest : List Char} (h : atLineEnd rest = true) : lineRestIsBlank rest = true :=
    (EndsItem.of_atLineEnd h).lineRestIsBlank
  -- an unquoted value stops at a line end, or at white space in front of a comment
  have hunquoted (cs : List Char) : EndsItem (unquoted cs).2 := by
    fun_induction unquoted cs with
    | case1 => exact .of_atLineEnd rfl
    | case2 c cs hend =>
      rcases hend with rfl | ⟨hspace, hcomment⟩
      · exact .of_atLineEnd rfl
      · exact .inr ⟨hspace, (startsComment_cons_of_isSpace hspace cs).trans hcomment⟩
    | case3 c cs _ ih => exact ih
  rw [value, valueAfterSpaces]
  split
  · exact hline (atLineEnd_skipLine _)
  · split
    · rename_i hend
      exact hline hend
    · split
      · rename_i hquoted
        obtain ⟨q, -, hsome⟩ := List.exists_of_findSome?_eq_some hquoted
        change quoted q.1 q.2 _ = _ at hsome
        rw [quoted] at hsome
        split at hsome
        · exact (Option.filter_eq_some_iff.mp hsome).2
        · cases hsome
      · exact (hunquoted _).lineRestIsBlank

/-! ## Items on a line -/

/-- An item, and what is left behind the blanks and the comment that may follow it. -/
def itemOnLine (cs : List Char) : Option (Item × List Char) :=
  (item .config cs).map fun r => (r.1, skipTail r.2)

/-- An assignment on a line is the same, whatever lines follow. -/
theorem assign_append_of_atLineEnd (hcs : StaysOnLine cs) (h : atLineEnd rest = true) :
    (assign .config (cs ++ rest)).map (fun r => (r.1, skipTail r.2)) =
      (assign .config cs).map fun r => (r.1, skipTail (r.2 ++ rest)) := by
  have hends : EndsItem rest := .of_atLineEnd h
  rw [assign_eq, assign_eq, target_append hends]
  cases htarget : target cs with
  | none => rfl
  | some r =>
    obtain ⟨t, text⟩ := r
    have hquoted : quotedValue (skipSpaces text ++ rest) =
        (quotedValue (skipSpaces text)).map (withTail rest) :=
      quotedValue_append
        (hcs.of_infix ((skipSpaces_suffix text).trans (target_suffix htarget)).isInfix) h
    obtain ⟨hvalue, hrest⟩ := value_append hends fun _ => hquoted
    simp only [Option.map_some, withTail, hvalue, hrest]

/-- In front of a line end the item is the one on the line. -/
theorem itemOnLine_append (hcs : StaysOnLine cs) (hne : cs ≠ []) (hcommand : cs.head? ≠ some '@')
    (h : atLineEnd rest = true) :
    itemOnLine (cs ++ rest) =
      (itemOnLine cs).map fun r => (r.1, if r.2 = [] then rest else r.2 ++ rest) := by
  have hends : EndsItem rest := .of_atLineEnd h
  have hcommand' : (cs ++ rest).head? ≠ some '@' := by rwa [head?_append_of_ne_nil hne]
  have htail (r : Item × List Char) : skipTail (r.2 ++ rest) =
      if skipTail r.2 = [] then rest else skipTail r.2 ++ rest := by
    rw [skipTail_append hends, skipTail_of_atLineEnd h]
  -- headers and assignments are tried in this order on both texts, and agree one by one
  have hread : itemOnLine (cs ++ rest) =
      (item .config cs).map fun r => (r.1, skipTail (r.2 ++ rest)) := by
    rw [itemOnLine, item_of_head hcommand', item_of_head hcommand, Option.map_or, Option.map_or,
      header_append_tail hends, assign_append_of_atLineEnd hcs h, Option.map_map]
    rfl
  rw [hread, itemOnLine, Option.map_map]
  simp only [htail, Function.comp_def]

/-- Behind blanks and comments, an item and the rest of its line come next. -/
theorem nextItem_of_skipBlank {start : List Char} (h : skipBlank false cs = start)
    (hne : start ≠ []) :
    nextItem .config cs =
      match itemOnLine start with
      | none => .malformed start
      | some (i, more) => if atLineEnd more then .item start i more else .malformed more := by
  obtain ⟨c, more, rfl⟩ := List.exists_cons_of_ne_nil hne
  rw [nextItem, h, itemOnLine]
  dsimp only
  cases item .config (c :: more) <;> rfl

/-- What is left behind an item is an end of the line. -/
theorem itemOnLine_suffix {i : Item} (h : itemOnLine cs = some (i, rest)) : rest <:+ cs := by
  obtain ⟨r, hitem, heq⟩ := Option.map_eq_some_iff.mp h
  obtain ⟨rfl, rfl⟩ := Prod.mk.inj heq
  exact (skipTail_suffix r.2).trans (item_left hitem).1

/-! ## The form of a line -/

/-- A line that starts with no command is a header or an assignment if nothing is left behind it. -/
theorem itemOnLine_eq_some_iff {i : Item} (hcommand : cs.head? ≠ some '@') :
    itemOnLine cs = some (i, []) ↔
      (∃ more, header .config cs = some (i, more) ∧ skipTail more = []) ∨
        ∃ t text, target cs = some (t, text) ∧ t.item (value text).1 = i ∧
          skipTail (value text).2 = [] := by
  rw [itemOnLine, item_of_head hcommand, assign_eq, Option.map_eq_some_iff]
  simp only [Prod.mk.injEq]
  -- what starts like an assignment is no header, so that the order does not matter
  cases htarget : target cs with
  | none =>
    rw [Option.map_none, Option.or_none]
    constructor
    · rintro ⟨r, hheader, rfl, hrest⟩
      exact .inl ⟨r.2, hheader, hrest⟩
    · rintro (⟨more, hheader, hrest⟩ | ⟨t, text, ⟨⟩, -⟩)
      exact ⟨(i, more), hheader, rfl, hrest⟩
  | some r =>
    rw [header_of_target htarget, Option.none_or]
    constructor
    · rintro ⟨_, ⟨⟩, rfl, hrest⟩
      exact .inr ⟨r.1, r.2, rfl, rfl, hrest⟩
    · rintro (⟨more, ⟨⟩, -⟩ | ⟨t, text, ⟨⟩, rfl, hrest⟩)
      exact ⟨_, rfl, rfl, hrest⟩

/-- What is read from a line alone is the item that its form says. -/
theorem form_some_iff {i : Item} (hline : '\n' ∉ cs) (hcommand : cs.head? ≠ some '@') :
    Form cs (some i) ↔ itemOnLine cs = some (i, []) := by
  rw [itemOnLine_eq_some_iff hcommand]
  constructor
  · intro h
    cases h with
    | header hopening hbefore hname hbehind hclosing htail =>
      refine .inl ⟨_, header_append hopening hbefore hname hbehind hclosing htail.not_bracket, ?_⟩
      exact (isTail_iff fun hmem => hline (by simp [hmem])).mp htail
    | @assign marker key hkey gap hgap op text =>
      refine .inr ⟨⟨marker, key.toList, op⟩, text, ?_, ?_, ?_⟩
      · rw [target_eq_some_iff, String.ofList_toList]
        exact ⟨hkey, gap, hgap, by simp [Target.chars]⟩
      · rw [Target.item, String.ofList_toList]
      · -- a value takes all of its line but for blanks and a comment
        apply eq_nil_of_atLineEnd (lineRestIsBlank_value text)
        intro hmem
        have htext := (value_suffix text).subset ((skipTail_suffix _).subset hmem)
        exact hline (by simp [htext])
  · rintro (⟨more, hheader, hrest⟩ | ⟨t, text, htarget, rfl, -⟩)
    · obtain ⟨opening, before, name, behind, closing, hopening, hbefore, hname, hbehind, hclosing,
        rfl, rfl⟩ := header_eq_some hheader
      exact .header hopening hbefore hname hbehind hclosing
        ((isTail_iff fun hmem => hline (by simp [hmem])).mpr hrest)
    · obtain ⟨hkey, gap, hgap, rfl⟩ := target_eq_some_iff.mp htarget
      have hform := Form.assign t.marker hkey hgap t.op text
      rw [String.toList_ofList] at hform
      simpa [Target.chars, Target.item] using hform

/-- A line has at most one form, and the item on it is determined. -/
theorem Form.unique {i i' : Option Item} (h : Form cs i) (h' : Form cs i') (hline : '\n' ∉ cs)
    (hcommand : cs.head? ≠ some '@') : i = i' := by
  -- no item is on a blank line or a comment
  have hblank (h : Form cs none) : itemOnLine cs = none := by
    cases h with
    | empty => rfl
    | comment text =>
      have hassign : Document.assign .config ('#' :: text) = none := by
        rw [assign_eq]
        rfl
      rw [itemOnLine, item_of_head hcommand, header_of_ne (by decide), hassign]
      rfl
  have hitem {i : Item} : Form cs (some i) ↔ itemOnLine cs = some (i, []) :=
    form_some_iff hline hcommand
  have hdiffer {i : Item} (hnone : Form cs none) : ¬ Form cs (some i) := by
    rw [hitem, hblank hnone]
    exact (Option.some_ne_none _).symm
  cases i with
  | none =>
    cases i' with
    | none => rfl
    | some i' => exact absurd h' (hdiffer h)
  | some i =>
    cases i' with
    | none => exact absurd h (hdiffer h')
    | some i' =>
      have hsame := (hitem.mp h).symm.trans (hitem.mp h')
      rw [(Prod.mk.inj (Option.some_inj.mp hsame)).1]

/-! ## Reading line by line -/

/-- No characters come about by skipping white space. -/
theorem not_mem_skipSpaces (h : c ∉ cs) : c ∉ skipSpaces cs :=
  fun hmem => h ((skipSpaces_suffix cs).subset hmem)

/-- White space in front is skipped with the blank lines. -/
theorem skipBlank_spaces_append {spaces : List Char} (h : ∀ c ∈ spaces, isSpace c = true)
    (cs : List Char) : skipBlank false (spaces ++ cs) = skipBlank false cs := by
  induction spaces with
  | nil => rfl
  | cons c spaces ih =>
    obtain ⟨hc, hspaces⟩ := List.forall_mem_cons.mp h
    rw [List.cons_append, skipBlank, if_pos (.inr hc), ih hspaces]

/-- White space at the start of a line does not matter for what comes next. -/
theorem skipBlank_skipSpaces_append (line rest : List Char) :
    skipBlank false (line ++ rest) = skipBlank false (skipSpaces line ++ rest) := by
  obtain ⟨spaces, hspaces, hsplit⟩ := exists_spaces line
  have hall : line ++ rest = spaces ++ (skipSpaces line ++ rest) := by
    rw [← List.append_assoc, ← hsplit]
  rw [hall, skipBlank_spaces_append hspaces]

/-- A line that is empty or a comment is passed over. -/
theorem nextItem_of_form_none (hline : '\n' ∉ line) (hrest : atLineEnd rest = true)
    (h : Form (skipSpaces line) none) :
    nextItem .config (line ++ rest) = nextItem .config rest := by
  apply nextItem_congr
  rw [skipBlank_skipSpaces_append]
  have hbody := not_mem_skipSpaces hline
  generalize skipSpaces line = body at h hbody
  cases h with
  | empty => rfl
  | comment text =>
    rw [List.cons_append, skipBlank, if_neg (by decide), if_pos rfl]
    exact skipBlank_comment_append (List.not_mem_of_not_mem_cons hbody) hrest

/-- A line without an item that is not blank is not empty. -/
theorem ne_nil_of_not_form_none (h : ¬ Form cs none) : cs ≠ [] := by
  rintro rfl
  exact h .empty

/-- On any other line something is found behind its leading white space. -/
theorem skipBlank_of_not_form_none (hline : '\n' ∉ line) (h : ¬ Form (skipSpaces line) none)
    (rest : List Char) : skipBlank false (line ++ rest) = skipSpaces line ++ rest := by
  rw [skipBlank_skipSpaces_append]
  have hbody := not_mem_skipSpaces hline
  obtain ⟨c, body, hcons⟩ := List.exists_cons_of_ne_nil (ne_nil_of_not_form_none h)
  have hspace : isSpace c = false := by
    have hstop := List.head?_dropWhile_not isSpace line
    rw [← skipSpaces, hcons] at hstop
    exact hstop
  rw [hcons] at h hbody
  have hhash : c ≠ '#' := by
    rintro rfl
    exact h (.comment body)
  rw [List.mem_cons, not_or] at hbody
  rw [hcons, List.cons_append, skipBlank, if_neg (by simp [Ne.symm hbody.1, hspace]),
    if_neg hhash]

section line

variable (hline : '\n' ∉ line) (hstays : StaysOnLine line)
  (hcommand : (skipSpaces line).head? ≠ some '@') (hrest : atLineEnd rest = true)

include hline hstays hcommand hrest

/-- It is the item that is on the line alone, if there is one and nothing else is left behind it. -/
theorem nextItem_of_not_form_none (h : ¬ Form (skipSpaces line) none) :
    nextItem .config (line ++ rest) =
      match itemOnLine (skipSpaces line) with
      | none => .malformed (skipSpaces line ++ rest)
      | some (i, more) =>
        if more = [] then .item (skipSpaces line ++ rest) i rest
        else .malformed (more ++ rest) := by
  have hne := ne_nil_of_not_form_none h
  rw [nextItem_of_skipBlank (skipBlank_of_not_form_none hline h rest)
      (List.append_ne_nil_of_left_ne_nil hne rest),
    itemOnLine_append (hstays.of_infix (skipSpaces_suffix line).isInfix) hne hcommand hrest]
  cases hitem : itemOnLine (skipSpaces line) with
  | none => rfl
  | some r =>
    dsimp only [Option.map_some]
    by_cases hmore : r.2 = []
    · rw [if_pos hmore, if_pos hmore, if_pos hrest]
    · have hlf : '\n' ∉ r.2 :=
        fun hmem => not_mem_skipSpaces hline ((itemOnLine_suffix hitem).subset hmem)
      rw [if_neg hmore, if_neg hmore, if_neg (not_atLineEnd_append hmore hlf rest)]

/-- A line is read by itself, and then the rest of the text, unless the line has none of the forms:
then it is a fault. -/
theorem readItems_line (size : Nat) :
    (∃ i, Form (skipSpaces line) i ∧
        (readItems .config size (line ++ rest)).fault = (readItems .config size rest).fault ∧
        (readItems .config size (line ++ rest)).items.map (·.item) =
          i.toList ++ (readItems .config size rest).items.map (·.item)) ∨
      (∀ i, ¬ Form (skipSpaces line) i) ∧ ∃ place, place ≠ [] ∧ place <:+ line ∧
        (readItems .config size (line ++ rest)).fault =
          some (size - byteLength (place ++ rest)) := by
  by_cases hblank : Form (skipSpaces line) none
  · rw [readItems_congr size (nextItem_of_form_none hline hrest hblank)]
    exact .inl ⟨none, hblank, rfl, rfl⟩
  have hnext := nextItem_of_not_form_none hline hstays hcommand hrest hblank
  have hform {i : Item} : Form (skipSpaces line) (some i) ↔
      itemOnLine (skipSpaces line) = some (i, []) :=
    form_some_iff (not_mem_skipSpaces hline) hcommand
  -- a line has a form exactly if an item takes all of it
  have hnone (hitem : ∀ i, itemOnLine (skipSpaces line) ≠ some (i, [])) :
      ∀ i, ¬ Form (skipSpaces line) i := by
    intro i
    cases i with
    | none => exact hblank
    | some i => exact fun h => hitem i (hform.mp h)
  cases hitem : itemOnLine (skipSpaces line) with
  | none =>
    rw [hitem] at hnext
    rw [readItems_of_malformed size hnext]
    exact .inr ⟨hnone (by simp [hitem]), _, ne_nil_of_not_form_none hblank, skipSpaces_suffix line,
      rfl⟩
  | some r =>
    obtain ⟨i, more⟩ := r
    rw [hitem] at hnext
    dsimp only at hnext
    by_cases hmore : more = []
    · subst hmore
      rw [if_pos rfl] at hnext
      rw [readItems_of_item size hnext]
      exact .inl ⟨some i, hform.mpr hitem, rfl, rfl⟩
    · rw [if_neg hmore] at hnext
      rw [readItems_of_malformed size hnext]
      exact .inr ⟨hnone (by simp [hitem, hmore]), more, hmore,
        (itemOnLine_suffix hitem).trans (skipSpaces_suffix line), rfl⟩

end line

/-- A line has one of the forms behind its leading white space. -/
def HasForm (line : List Char) : Prop :=
  ∃ i, Form (skipSpaces line) i

/-- Lines with their line feeds. -/
def joinLines (lines : List (List Char)) : List Char :=
  lines.flatMap (· ++ ['\n'])

/-- The first line of a plain text stays on its line, and the others are a plain text. -/
theorem IsPlain.first_line (h : IsPlain (line ++ '\n' :: rest)) (hline : '\n' ∉ line) :
    (StaysOnLine line ∧ (skipSpaces line).head? ≠ some '@') ∧ IsPlain rest := by
  have hsplit := splitOn_append hline rest
  have hrest : rest <:+ line ++ '\n' :: rest :=
    (List.suffix_cons '\n' rest).trans (List.suffix_append line _)
  have hcommand := h.no_command
  rw [hsplit] at hcommand
  obtain ⟨hfirst, hothers⟩ := List.forall_mem_cons.mp hcommand
  exact ⟨⟨h.toStaysOnLine.of_infix (List.prefix_append line _).isInfix, hfirst⟩,
    { h.toStaysOnLine.of_infix hrest.isInfix with no_command := hothers }⟩

/-- The lines are read one after the other, up to the first that has none of the forms. -/
theorem readItems_lines (size : Nat) (h : IsPlain cs) :
    (∃ found, List.Forall₂ (fun line i => Form (skipSpaces line) i) (splitOn '\n' cs) found ∧
        (readItems .config size cs).fault = none ∧
        (readItems .config size cs).items.map (·.item) = found.reduceOption) ∨
      ∃ before line after place rest, splitOn '\n' cs = before ++ line :: after ∧
        (∀ l ∈ before, HasForm l) ∧ ¬ HasForm line ∧ cs = joinLines before ++ (line ++ rest) ∧
        place ≠ [] ∧ place <:+ line ∧
        (readItems .config size cs).fault = some (size - byteLength (place ++ rest)) := by
  revert h
  induction cs using splitOn_induction with
  | last line hline =>
    intro h
    have hsplit := splitOn_of_not_mem hline
    have hcommand := h.no_command line (by rw [hsplit]; exact List.mem_singleton_self line)
    have hread :=
      readItems_line hline h.toStaysOnLine hcommand (show atLineEnd [] = true from rfl) size
    rw [List.append_nil, readItems_of_finished size (show nextItem .config [] = .finished from rfl)]
      at hread
    rw [hsplit]
    rcases hread with ⟨i, hform, hfault, hitems⟩ | ⟨hnone, place, hplace, hsuffix, hfault⟩
    · refine .inl ⟨[i], .cons hform .nil, hfault, hitems.trans ?_⟩
      cases i <;> rfl
    · exact .inr ⟨[], line, [], place, [], rfl, List.forall_mem_nil _, fun ⟨i, hi⟩ => hnone i hi,
        by simp [joinLines], hplace, hsuffix, hfault⟩
  | cons line more hline ih =>
    intro h
    -- the first line is read by itself, and the others as their own text
    obtain ⟨⟨hstays, hcommand⟩, hmore⟩ := h.first_line hline
    have hread := readItems_line hline hstays hcommand
      (show atLineEnd ('\n' :: more) = true from rfl) size
    rw [readItems_lineFeed] at hread
    rw [splitOn_append hline]
    rcases hread with ⟨i, hform, hfault, hitems⟩ | ⟨hnone, place, hplace, hsuffix, hfault⟩
    · rw [hfault, hitems]
      rcases ih hmore with ⟨found, hforms, hread, hfound⟩ |
        ⟨before, bad, after, place, rest, hsplit, hbefore, hbad, hcs, hplace⟩
      · refine .inl ⟨i :: found, .cons hform hforms, hread, ?_⟩
        rw [hfound]
        cases i <;> rfl
      · refine .inr ⟨line :: before, bad, after, place, rest, by rw [hsplit]; rfl,
          List.forall_mem_cons.mpr ⟨⟨i, hform⟩, hbefore⟩, hbad, ?_, hplace⟩
        simp [joinLines, hcs]
    · exact .inr ⟨[], line, splitOn '\n' more, place, '\n' :: more, rfl, List.forall_mem_nil _,
        fun ⟨i, hi⟩ => hnone i hi, rfl, hplace, hsuffix, hfault⟩

/-- Lines on which something was found have a form. -/
theorem hasForm_of_forall₂ {lines : List (List Char)} {found : List (Option Item)}
    (h : List.Forall₂ (fun line i => Form (skipSpaces line) i) lines found) :
    ∀ line ∈ lines, HasForm line :=
  ((List.forall₂_and_left _ _).mp (h.imp fun _ i hi => ⟨⟨i, hi⟩, hi⟩)).1

/-- What is on the lines of a plain text is determined by it. -/
theorem IsPlain.found_unique (h : IsPlain cs) {found found' : List (Option Item)}
    (hfound : List.Forall₂ (fun line i => Form (skipSpaces line) i) (splitOn '\n' cs) found)
    (hfound' : List.Forall₂ (fun line i => Form (skipSpaces line) i) (splitOn '\n' cs) found') :
    found = found' := by
  have hlines : ∀ line ∈ splitOn '\n' cs,
      '\n' ∉ skipSpaces line ∧ (skipSpaces line).head? ≠ some '@' := fun line hmem =>
    ⟨not_mem_skipSpaces (not_mem_of_mem_splitOn hmem), h.no_command line hmem⟩
  have hunique : Relator.RightUnique fun line i =>
      ('\n' ∉ skipSpaces line ∧ (skipSpaces line).head? ≠ some '@') ∧ Form (skipSpaces line) i :=
    fun _ _ _ hi hi' => hi.2.unique hi'.2 hi.1.1 hi.1.2
  exact List.right_unique_forall₂' hunique ((List.forall₂_and_left _ _).mpr ⟨hlines, hfound⟩)
    ((List.forall₂_and_left _ _).mpr ⟨hlines, hfound'⟩)

/-- A plain text is read to its end if and only if all its lines have one of the forms, and then it
has the items that stand on them, in order. Otherwise reading stops at a place within the first line
that has none of them. -/
theorem read_plain {source : String} (h : IsPlain source.toList) :
    ((read .config source).fault = none ↔ ∀ line ∈ splitOn '\n' source.toList, HasForm line) ∧
      (∀ found, List.Forall₂ (fun line i => Form (skipSpaces line) i)
          (splitOn '\n' source.toList) found →
        (read .config source).items.map (·.item) = found.reduceOption) ∧
      ∀ offset, (read .config source).fault = some offset →
        ∃ before line after, splitOn '\n' source.toList = before ++ line :: after ∧
          (∀ l ∈ before, HasForm l) ∧ ¬ HasForm line ∧
          byteLength (joinLines before) ≤ offset ∧
          offset < byteLength (joinLines before) + byteLength line := by
  rw [read]
  rcases readItems_lines (byteLength source.toList) h with
    ⟨found, hforms, hfault, hitems⟩ |
      ⟨before, line, after, place, rest, hsplit, hbefore, hnone, hsource, hplace, hsuffix, hfault⟩
  · refine ⟨iff_of_true hfault (hasForm_of_forall₂ hforms), fun found' hforms' => ?_,
      fun offset hoffset => ?_⟩
    · rw [hitems, h.found_unique hforms hforms']
    · rw [hfault] at hoffset
      cases hoffset
  · have hmem : line ∈ splitOn '\n' source.toList := by
      rw [hsplit]
      exact List.mem_append_right before List.mem_cons_self
    have hsome : (readItems .config (byteLength source.toList) source.toList).fault ≠ none := by
      rw [hfault]
      exact Option.some_ne_none _
    refine ⟨iff_of_false hsome fun hall => hnone (hall line hmem),
      fun found hforms => absurd (hasForm_of_forall₂ hforms line hmem) hnone, ?_⟩
    rw [hfault]
    rintro offset ⟨⟩
    refine ⟨before, line, after, hsplit, hbefore, hnone, ?_⟩
    -- the place is within the line, and not behind its last character
    obtain ⟨start, rfl⟩ := hsuffix
    obtain ⟨c, place, rfl⟩ := List.exists_cons_of_ne_nil hplace
    have hc := c.utf8Size_pos
    simp only [hsource, byteLength_append, byteLength_cons]
    omega

/-- A text with a line of each form. -/
theorem read_plain_each_form :
    IsPlain "\n # [b]\n[[a ]\t# c\n ~k:= 'v' x".toList ∧
      (read .config "\n # [b]\n[[a ]\t# c\n ~k:= 'v' x").fault = none ∧
      (read .config "\n # [b]\n[[a ]\t# c\n ~k:= 'v' x").items.map (·.item) =
        [.header 2 1 "a", .assign (some .temporary) "k" .immediate "'v' x"] := by
  have hplain : IsPlain "\n # [b]\n[[a ]\t# c\n ~k:= 'v' x".toList :=
    { no_backslash := by decide
      no_double := fun h => absurd (h.sublist.count_le '"') (by decide)
      no_single := fun h => absurd (h.sublist.count_le '\'') (by decide)
      no_command := by decide }
  have hheader : Form "[[a ]\t# c".toList (some (.header 2 1 "a")) :=
    @Form.header 2 1 "a" [] [' '] "\t# c".toList (by decide) (List.forall_mem_nil _) (by decide)
      (by simp [isSpace]) (by decide)
      (@IsTail.comment ['\t'] (by simp [isSpace]) (by decide) " c".toList)
  have hvalue : String.ofList (value " 'v' x".toList).1 = "'v' x" := by decide +kernel
  have hassign : Form "~k:= 'v' x".toList
      (some (.assign (some .temporary) "k" .immediate "'v' x")) := by
    rw [← hvalue]
    exact @Form.assign (some .temporary) "k" (by decide) [] (List.forall_mem_nil _) .immediate
      " 'v' x".toList
  have hlines : splitOn '\n' "\n # [b]\n[[a ]\t# c\n ~k:= 'v' x".toList =
      ["".toList, " # [b]".toList, "[[a ]\t# c".toList, " ~k:= 'v' x".toList] := by decide
  have hforms : List.Forall₂ (fun line i => Form (skipSpaces line) i)
      (splitOn '\n' "\n # [b]\n[[a ]\t# c\n ~k:= 'v' x".toList)
      [none, none, some (.header 2 1 "a"),
        some (.assign (some .temporary) "k" .immediate "'v' x")] := by
    rw [hlines]
    exact .cons .empty (.cons (.comment " [b]".toList) (.cons hheader (.cons hassign .nil)))
  obtain ⟨hread, hitems, -⟩ := read_plain hplain
  exact ⟨hplain, hread.mpr (hasForm_of_forall₂ hforms), hitems _ hforms⟩

end Document

end LayeredConfig
