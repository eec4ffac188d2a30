import LayeredConfig.Proofs.Document.Comments
import LayeredConfig.Proofs.Document.LineForms

/-!
# Values in single marks

A value in single marks is not closed behind a line feed, unless a backslash stands right in front
of the line feed: an escape takes whatever character follows. So a value that does not start with
triple marks takes a line feed in this one case (`exists_taken`), and it is the one on its line
unless the line ends within such an escape (`value_append_of_not_pending`, `value_of_pending`).
-/

namespace LayeredConfig.Document

open Text

variable {cs rest line more text inside v w : List Char} {mark c : Char}

/-- A quotation mark. -/
def IsMark (c : Char) : Prop :=
  c = '"' ∨ c = '\''

/-- What may stand between single marks, and the text that it stands for. -/
inductive Inside (mark : Char) : List Char → List Char → Prop
  | nil : Inside mark [] []
  | plain {c : Char} {cs v : List Char} (hmark : c ≠ mark) (hbackslash : c ≠ '\\')
      (hline : c ≠ '\n') (h : Inside mark cs v) : Inside mark (c :: cs) (c :: v)
  | escape (e : Char) {cs v : List Char} (h : Inside mark cs v) :
      Inside mark ('\\' :: e :: cs) (escaped e :: v)

/-- A text that starts with a value in single marks, behind which the line is blank. -/
inductive InMarks (inside v rest : List Char) : List Char → Prop
  | intro {mark : Char} (hmark : IsMark mark) (h : Inside mark inside v)
      (hrest : lineRestIsBlank rest = true) :
      InMarks inside v rest (mark :: (inside ++ mark :: rest))

/-- A text that starts with triple marks. -/
def StartsTriple (text : List Char) : Prop :=
  ∃ mark, IsMark mark ∧ [mark, mark, mark] <+: text

instance (text : List Char) : Decidable (StartsTriple text) :=
  decidable_of_iff ((['"', '\''].any fun mark => [mark, mark, mark].isPrefixOf text) = true)
    (by simp [StartsTriple, IsMark])

/-- A text that starts with a value in single marks which has an escaped line feed. -/
def Continues (text : List Char) : Prop :=
  ∃ inside v rest, InMarks inside v rest text ∧ '\n' ∈ inside

/-- A line that ends within an escape between single marks. -/
def Pending (line : List Char) : Prop :=
  ∃ mark inside v, IsMark mark ∧ Inside mark inside v ∧ line = mark :: (inside ++ ['\\'])

/-! ## Single marks -/

/-- A mark is no other character. -/
theorem IsMark.ne (hmark : IsMark mark) (hc : c ≠ '"' ∧ c ≠ '\'') : mark ≠ c := by
  rcases hmark with rfl | rfl
  · exact hc.1.symm
  · exact hc.2.symm

/-- A mark alone is a kind of quotes. -/
theorem IsMark.areMarks (hmark : IsMark mark) : AreMarks [mark] :=
  ⟨List.cons_ne_nil mark [], List.forall_mem_singleton.mpr hmark⟩

/-- A text that starts with the mark opens the quotes. -/
theorem isPrefixOf_mark (mark : Char) (cs : List Char) : [mark].isPrefixOf (mark :: cs) = true := by
  simp

/-- A text that starts with another character does not. -/
theorem isPrefixOf_mark_of_ne (h : c ≠ mark) (cs : List Char) :
    [mark].isPrefixOf (c :: cs) = false := by
  simp [List.isPrefixOf_cons_cons, h.symm]

/-- What stands inside is read in front of anything. -/
theorem Inside.quotedBody_append (hmark : IsMark mark) (h : Inside mark inside v)
    (more : List Char) :
    quotedBody [mark] false (inside ++ more) =
      (quotedBody [mark] false more).map fun r => (v ++ r.1, r.2) := by
  induction h with
  | nil => simp
  | plain hne hbackslash hline _ ih =>
    rw [List.cons_append, quotedBody_plain (isPrefixOf_mark_of_ne hne _) hbackslash
      (absurd · hline), ih, Option.map_map]
    rfl
  | escape e _ ih =>
    have hbackslash : '\\' ≠ mark := (hmark.ne (by decide)).symm
    rw [List.cons_append, List.cons_append,
      quotedBody_escape (isPrefixOf_mark_of_ne hbackslash _), ih, Option.map_map]
    rfl

/-- The mark ends a value. -/
theorem quotedBody_mark (mark : Char) (rest : List Char) :
    quotedBody [mark] false (mark :: rest) = some ([], rest) :=
  quotedBody_of_quote (isPrefixOf_mark mark rest)

/-- On a line, everything up to the closing mark is inside, or everything is, but for a backslash at
the end. -/
theorem exists_inside (mark : Char) (hline : '\n' ∉ cs) :
    ∃ inside v, Inside mark inside v ∧
      (cs = inside ∨ cs = inside ++ ['\\'] ∨ ∃ rest, cs = inside ++ mark :: rest) := by
  -- as the reader goes: the end, the mark, a last backslash, an escape, a line feed, anything else
  fun_induction quotedBody [mark] false cs with
  | case1 => exact ⟨[], [], .nil, .inl rfl⟩
  | case2 c cs hquote =>
    obtain rfl : mark = c := by simpa using hquote
    exact ⟨[], [], .nil, .inr (.inr ⟨cs, rfl⟩)⟩
  | case3 => exact ⟨[], [], .nil, .inr (.inl rfl)⟩
  | case4 e cs _ ih =>
    simp only [List.mem_cons, not_or] at hline
    obtain ⟨inside, v, h, hcs⟩ := ih hline.2.2
    refine ⟨_, _, h.escape e, ?_⟩
    simpa using hcs
  | case5 c cs _ _ hend => exact absurd (List.mem_cons.mpr (.inl hend.1.symm)) hline
  | case6 c cs hquote hbackslash _ ih =>
    simp only [List.mem_cons, not_or] at hline
    obtain ⟨inside, v, h, hcs⟩ := ih hline.2
    have hmark : c ≠ mark := by
      rintro rfl
      exact hquote (isPrefixOf_mark c cs)
    refine ⟨_, _, .plain hmark hbackslash (Ne.symm hline.1) h, ?_⟩
    simpa using hcs

/-- A value is read up to the first mark that is not escaped. -/
theorem quotedBody_eq_some_iff (hmark : IsMark mark) :
    quotedBody [mark] false cs = some (v, rest) ↔
      ∃ inside, Inside mark inside v ∧ cs = inside ++ mark :: rest := by
  constructor
  · intro h
    fun_induction quotedBody [mark] false cs generalizing v with
    | case1 => cases h
    | case2 c cs hquote =>
      obtain rfl : mark = c := by simpa using hquote
      cases h
      exact ⟨[], .nil, rfl⟩
    | case3 => cases h
    | case4 e cs _ ih =>
      obtain ⟨r, hr, heq⟩ := Option.map_eq_some_iff.mp h
      cases heq
      obtain ⟨inside, hinside, rfl⟩ := ih hr
      exact ⟨_, hinside.escape e, rfl⟩
    | case5 => cases h
    | case6 c cs hquote hbackslash hline ih =>
      obtain ⟨r, hr, heq⟩ := Option.map_eq_some_iff.mp h
      cases heq
      obtain ⟨inside, hinside, rfl⟩ := ih hr
      have hne : c ≠ mark := by
        rintro rfl
        exact hquote (isPrefixOf_mark c _)
      exact ⟨_, .plain hne hbackslash (fun hc => hline ⟨hc, rfl⟩) hinside, rfl⟩
  · rintro ⟨inside, hinside, rfl⟩
    rw [hinside.quotedBody_append hmark, quotedBody_mark, Option.map_some, List.append_nil]

/-- A value in single marks is read exactly if they are closed and the rest of the line is blank. -/
theorem quoted_mark_eq_some_iff (hmark : IsMark mark) :
    quoted [mark] false text = some (v, rest) ↔
      ∃ inside, Inside mark inside v ∧ lineRestIsBlank rest = true ∧
        text = mark :: (inside ++ mark :: rest) := by
  cases text with
  | nil => simp [quoted]
  | cons c cs =>
    by_cases hc : c = mark
    · subst hc
      rw [quoted, if_pos (isPrefixOf_mark c cs), Option.filter_eq_some_iff,
        show (c :: cs).drop [c].length = cs from rfl, quotedBody_eq_some_iff hmark]
      constructor
      · rintro ⟨⟨inside, hinside, rfl⟩, hrest⟩
        exact ⟨inside, hinside, hrest, rfl⟩
      · rintro ⟨inside, hinside, hrest, hcs⟩
        exact ⟨⟨inside, hinside, List.tail_eq_of_cons_eq hcs⟩, hrest⟩
    · rw [quoted, isPrefixOf_mark_of_ne hc, if_neg Bool.false_ne_true]
      simp [hc]

/-! ## Values -/

/-- In front of anything but triple marks, single ones are tried, the double mark first. -/
theorem quotedValue_eq_or (h : ¬ StartsTriple text) :
    quotedValue text = (quoted ['"'] false text).or (quoted ['\''] false text) := by
  have htriple {mark : Char} (hmark : IsMark mark) :
      quoted [mark, mark, mark] true text = none := by
    rw [quoted, if_neg]
    exact fun hquote => h ⟨mark, hmark, List.isPrefixOf_iff_prefix.mp hquote⟩
  simp only [quotedValue, quotes, List.findSome?_cons, List.findSome?_nil, htriple (.inl rfl),
    htriple (.inr rfl)]
  cases quoted ['"'] false text <;> cases quoted ['\''] false text <;> rfl

/-- Without triple marks, a quoted value is one in single marks. -/
theorem quotedValue_eq_some_iff (h : ¬ StartsTriple text) :
    quotedValue text = some (v, rest) ↔ ∃ inside, InMarks inside v rest text := by
  rw [quotedValue_eq_or h, Option.or_eq_some_iff]
  constructor
  · rintro (hdouble | ⟨-, hsingle⟩)
    · obtain ⟨inside, hinside, hrest, rfl⟩ := (quoted_mark_eq_some_iff (.inl rfl)).mp hdouble
      exact ⟨inside, .intro (.inl rfl) hinside hrest⟩
    · obtain ⟨inside, hinside, hrest, rfl⟩ := (quoted_mark_eq_some_iff (.inr rfl)).mp hsingle
      exact ⟨inside, .intro (.inr rfl) hinside hrest⟩
  · rintro ⟨inside, hmark, hinside, hrest⟩
    have hquoted := (quoted_mark_eq_some_iff hmark).mpr ⟨inside, hinside, hrest, rfl⟩
    rcases hmark with rfl | rfl
    · exact .inl hquoted
    · refine .inr ⟨?_, hquoted⟩
      rw [quoted, isPrefixOf_mark_of_ne (by decide), if_neg Bool.false_ne_true]

/-- What stands between the marks is determined. -/
theorem InMarks.unique {inside' : List Char} (h : InMarks inside v rest text)
    (h' : InMarks inside' w rest text) : inside = inside' := by
  cases h with
  | intro =>
    generalize htext : _ :: (inside ++ _ :: rest) = text at h'
    cases h' with
    | intro =>
      obtain ⟨rfl, hinside⟩ := List.cons.inj htext
      exact List.append_cancel_right hinside

/-- An unquoted value and what is left behind it make up the text. -/
theorem unquoted_append_eq (cs : List Char) : (unquoted cs).1 ++ (unquoted cs).2 = cs := by
  fun_induction unquoted cs with
  | case1 => rfl
  | case2 => rfl
  | case3 c cs _ ih => rw [List.cons_append, ih]

/-- An unquoted value is on one line. -/
theorem not_mem_unquoted (cs : List Char) : '\n' ∉ (unquoted cs).1 := by
  fun_induction unquoted cs with
  | case1 => exact List.not_mem_nil
  | case2 => exact List.not_mem_nil
  | case3 c cs hend ih =>
    rw [not_or] at hend
    exact List.not_mem_cons_of_ne_of_not_mem (Ne.symm hend.1) ih

/-- No characters come about by dropping some at the end. -/
theorem mem_of_mem_dropTrailing {p : Char → Bool} (h : c ∈ dropTrailing p cs) : c ∈ cs :=
  List.mem_reverse.mp ((List.dropWhile_suffix p).subset (List.mem_reverse.mp h))

/-- A text with no quoted value does not go on beyond its line. -/
theorem not_continues_of_quotedValue_eq_none (h : ¬ StartsTriple text)
    (hnone : quotedValue text = none) : ¬ Continues text := by
  rintro ⟨inside, v, rest, hmarks, -⟩
  rw [(quotedValue_eq_some_iff h).mpr ⟨inside, hmarks⟩] at hnone
  cases hnone

/-- A value takes a line feed if it is one in single marks that goes on behind it. -/
theorem exists_taken (h : ¬ StartsTriple text) :
    ∃ taken, text = taken ++ (valueAfterSpaces text).2 ∧ ('\n' ∈ taken ↔ Continues text) := by
  cases hquoted : quotedValue text with
  | some r =>
    obtain ⟨v, rest⟩ := r
    obtain ⟨inside, hmarks⟩ := (quotedValue_eq_some_iff h).mp hquoted
    -- the marks are determined by the text, and so is what stands between them
    have hcontinues : '\n' ∈ inside ↔ Continues text := by
      constructor
      · exact fun hmem => ⟨inside, v, rest, hmarks, hmem⟩
      · rintro ⟨inside', v', rest', hmarks', hmem⟩
        rw [(quotedValue_eq_some_iff h).mpr ⟨inside', hmarks'⟩] at hquoted
        cases hquoted
        rwa [hmarks.unique hmarks']
    rw [valueAfterSpaces_of_quotedValue hquoted]
    cases hmarks with
    | @intro mark hmark =>
      have hline : '\n' ≠ mark := (hmark.ne (by decide)).symm
      refine ⟨mark :: (inside ++ [mark]), by simp, ?_⟩
      rw [← hcontinues]
      simp [hline]
  | none =>
    -- no quoted value: what is taken ends on the line, in a comment or in front of one
    have hnot := not_continues_of_quotedValue_eq_none h hquoted
    rw [valueAfterSpaces_eq, hquoted]
    split
    · exact ⟨text.takeWhile (· != '\n'), List.takeWhile_append_dropWhile.symm,
        iff_of_false (fun hmem => by simpa using List.mem_takeWhile_imp hmem) hnot⟩
    · split
      · exact ⟨[], rfl, iff_of_false List.not_mem_nil hnot⟩
      · exact ⟨(unquoted text).1, (unquoted_append_eq text).symm,
          iff_of_false (not_mem_unquoted text) hnot⟩

/-- What is skipped behind a value leaves the end of its line, if the value has not got past it. -/
theorem skipTail_eq_iff {taken : List Char} (h : lineRestIsBlank rest = true) :
    skipTail rest = skipLine (taken ++ rest) ↔ '\n' ∉ taken := by
  constructor
  · intro htail hmem
    have hne : skipLine taken ≠ [] := by
      intro hnil
      simpa using List.dropWhile_eq_nil_iff.mp hnil '\n' hmem
    -- if a line feed was taken, more would be left of the line than of the rest
    have hlength := (skipTail_suffix rest).length_le
    have hpos := List.length_pos_iff.mpr hne
    rw [htail, skipLine_append, if_neg hne, List.length_append] at hlength
    omega
  · intro hline
    rw [skipLine_append, if_pos (skipLine_of_not_mem hline)]
    rw [lineRestIsBlank] at h
    rw [skipTail] at h ⊢
    split
    · rw [skipLine_skipSpaces]
    · rename_i hcomment
      rw [if_neg hcomment] at h
      rw [← skipLine_skipSpaces, skipLine_of_atLineEnd h]

/-! ## Values in front of a line end -/

/-- Whether a line starts with triple marks does not depend on what follows the item. -/
theorem startsTriple_append (h : EndsItem more) :
    StartsTriple (line ++ more) ↔ StartsTriple line := by
  have hmarks {mark : Char} (hmark : IsMark mark) : ∀ c ∈ [mark, mark, mark], IsMark c := by
    simpa using hmark
  constructor
  · rintro ⟨mark, hmark, hprefix⟩
    refine ⟨mark, hmark, List.isPrefixOf_iff_prefix.mp ?_⟩
    rwa [← isPrefixOf_append h (hmarks hmark), List.isPrefixOf_iff_prefix]
  · rintro ⟨mark, hmark, hprefix⟩
    exact ⟨mark, hmark, hprefix.trans (List.prefix_append line more)⟩

/-- A value in single marks is closed on its line, if at all, unless the line ends within an escape.
-/
theorem quoted_mark_append (hmark : IsMark mark) (hline : '\n' ∉ line) (hpending : ¬ Pending line)
    (h : atLineEnd more = true) :
    quoted [mark] false (line ++ more) = (quoted [mark] false line).map (withTail more) := by
  apply quoted_append (.of_atLineEnd h) hmark.areMarks
  intro hquote
  cases line with
  | nil => cases hquote
  | cons c cs =>
    obtain rfl : mark = c := by simpa using hquote
    have hrest : '\n' ∉ cs := fun hmem => hline (List.mem_cons_of_mem mark hmem)
    obtain ⟨inside, v, hinside, hcs⟩ := exists_inside mark hrest
    rw [show (mark :: cs).drop [mark].length = cs from rfl]
    -- the line does not close the marks, or it ends within an escape, or it closes them
    rcases hcs with rfl | rfl | ⟨rest, rfl⟩
    · have hmore : quotedBody [mark] false more = none := by
        cases more with
        | nil => rfl
        | cons d more =>
          obtain rfl := atLineEnd_iff.mp h d rfl
          exact quotedBody_lineFeed hmark more
      have hnone := hinside.quotedBody_append hmark []
      rw [List.append_nil] at hnone
      rw [hinside.quotedBody_append hmark, hmore, hnone]
      rfl
    · exact absurd ⟨mark, inside, v, hmark, hinside, rfl⟩ hpending
    · rw [List.append_assoc, List.cons_append, hinside.quotedBody_append hmark,
        hinside.quotedBody_append hmark, quotedBody_mark, quotedBody_mark]
      rfl

/-- The quoted value of a line that is not pending does not depend on the lines that follow. -/
theorem quotedValue_append_of_not_pending (hline : '\n' ∉ line) (htriple : ¬ StartsTriple line)
    (hpending : ¬ Pending line) (h : atLineEnd more = true) :
    quotedValue (line ++ more) = (quotedValue line).map (withTail more) := by
  have htriple' : ¬ StartsTriple (line ++ more) := by
    rwa [startsTriple_append (.of_atLineEnd h)]
  rw [quotedValue_eq_or htriple', quotedValue_eq_or htriple,
    quoted_mark_append (.inl rfl) hline hpending h, quoted_mark_append (.inr rfl) hline hpending h,
    Option.map_or]

/-- Such a line has its value on it. -/
theorem value_append_of_not_pending (hline : '\n' ∉ cs) (htriple : ¬ StartsTriple (skipSpaces cs))
    (hpending : ¬ Pending (skipSpaces cs)) (h : atLineEnd more = true) :
    (value (cs ++ more)).1 = (value cs).1 ∧ skipTail (value (cs ++ more)).2 = more := by
  have hspaces : '\n' ∉ skipSpaces cs := not_mem_skipSpaces hline
  obtain ⟨hvalue, hrest⟩ := value_append (.of_atLineEnd h) fun _ =>
    quotedValue_append_of_not_pending hspaces htriple hpending h
  have hnil : skipTail (value cs).2 = [] :=
    eq_nil_of_atLineEnd (lineRestIsBlank_value cs) fun hmem =>
      hline ((value_suffix cs).subset ((skipTail_suffix _).subset hmem))
  refine ⟨hvalue, ?_⟩
  rw [hrest, skipTail_append (.of_atLineEnd h), if_pos hnil, skipTail_of_atLineEnd h]

/-- What may stand between marks may stand there one after the other. -/
theorem Inside.append {cs : List Char} (h : Inside mark inside v) (h' : Inside mark cs w) :
    Inside mark (inside ++ cs) (v ++ w) := by
  induction h with
  | nil => exact h'
  | plain hmark hbackslash hline _ ih => exact .plain hmark hbackslash hline ih
  | escape e _ ih => exact .escape e ih

/-- A line that ends within an escape has its value on it if nothing follows, and has not if the
next line closes the marks. -/
theorem value_of_pending (h : Pending line) (htriple : ¬ StartsTriple line) :
    ∃ mark, IsMark mark ∧ '\n' ∉ (valueAfterSpaces line).1 ∧
      '\n' ∈ (valueAfterSpaces (line ++ ['\n', mark])).1 := by
  obtain ⟨mark, inside, v, hmark, hinside, rfl⟩ := h
  refine ⟨mark, hmark, ?_, ?_⟩
  · -- the marks are not closed, so that the value is unquoted
    have hbody : quotedBody [mark] false (inside ++ ['\\']) = none := by
      rw [hinside.quotedBody_append hmark, Option.map_eq_none_iff]
      exact Option.map_eq_none_iff.mp (closes_backslash hmark.areMarks)
    have hnone : quotedValue (mark :: (inside ++ ['\\'])) = none := by
      rw [Option.eq_none_iff_forall_ne_some]
      rintro ⟨w, rest⟩ hsome
      obtain ⟨inside', hmarks⟩ := (quotedValue_eq_some_iff htriple).mp hsome
      generalize htext : mark :: (inside ++ ['\\']) = text at hmarks
      cases hmarks with
      | intro _ hinside' =>
        obtain ⟨rfl, hcs⟩ := List.cons.inj htext
        rw [(quotedBody_eq_some_iff hmark).mpr ⟨inside', hinside', hcs⟩] at hbody
        cases hbody
    have hcomment : (mark :: (inside ++ ['\\'])).head? ≠ some '#' :=
      fun hhead => hmark.ne (by decide) (Option.some_inj.mp hhead)
    have hstarts : ¬ atLineEnd (mark :: (inside ++ ['\\'])) = true :=
      fun hend => hmark.ne (by decide) (atLineEnd_iff.mp hend mark rfl)
    rw [valueAfterSpaces_eq, if_neg hcomment, if_neg hstarts, hnone]
    intro hmem
    exact not_mem_unquoted _ (mem_of_mem_dropTrailing hmem)
  · -- the line feed is escaped, and the mark behind it closes the value
    have hvalue : InMarks (inside ++ ['\\', '\n']) (v ++ ['\n']) []
        (mark :: (inside ++ ['\\'] ++ ['\n', mark])) := by
      have hmarks := InMarks.intro hmark (hinside.append (.escape '\n' .nil))
        (show lineRestIsBlank [] = true from rfl)
      simpa [show escaped '\n' = '\n' from by decide] using hmarks
    have htriple' : ¬ StartsTriple (mark :: (inside ++ ['\\'] ++ ['\n', mark])) := by
      rwa [← List.cons_append, startsTriple_append (.of_atLineEnd rfl)]
    rw [List.cons_append, valueAfterSpaces_of_quotedValue
      ((quotedValue_eq_some_iff htriple').mpr ⟨_, hvalue⟩)]
    simp

end LayeredConfig.Document
