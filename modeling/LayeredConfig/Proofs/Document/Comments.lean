import LayeredConfig.Proofs.Document.LineEnds

/-!
# Comments put behind a line

A comment can be put behind any line of a text that is read to its end, unless an item spans the
line end: the same items are read (`read_insert_comment`).

Both texts are read in parallel. As long as the readers stay in front of the line end, they agree
(`Passes`), since both the line end and the comment end an item. If one of them gets past the line
end, the item spans it. The quotes are the hard part, because they are tried one after the other,
and a kind of quotes that does not fit may look far ahead before it fails: it must not fit because
of the comment (`Remark.closes_of_closes_chars`).
-/

namespace LayeredConfig.Document

open Text

/-! ## Reading to the end -/

/-- A text is read to its end, and has the given items. -/
inductive ReadsTo (mode : Mode) : List Char → List Item → Prop
  | finished {cs : List Char} (h : nextItem mode cs = .finished) : ReadsTo mode cs []
  | item {cs start rest : List Char} {i : Item} {items : List Item}
      (h : nextItem mode cs = .item start i rest) (hrest : ReadsTo mode rest items) :
      ReadsTo mode cs (i :: items)

/-- While a text is read, an item stands between two places: what is left at its start, and what is
left behind it. -/
inductive ItemAt (mode : Mode) : List Char → List Char → List Char → Prop
  | here {cs start more rest : List Char} {i : Item} (h : nextItem mode cs = .item start i rest)
      (hitem : item mode start = some (i, more)) : ItemAt mode cs start more
  | later {cs start rest first last : List Char} {i : Item}
      (h : nextItem mode cs = .item start i rest) (hrest : ItemAt mode rest first last) :
      ItemAt mode cs first last

/-- An item of a text begins in front of the place at which `after` is left, and ends behind it. -/
def Spans (mode : Mode) (cs after : List Char) : Prop :=
  ∃ first last, ItemAt mode cs first last ∧
    after.length ≤ first.length ∧ last.length < after.length

variable {cs tail rest : List Char} {c e : Char}

/-- A text is read to its end exactly if its reading has no fault. -/
theorem readsTo_iff {mode : Mode} {items : List Item} (size : Nat) :
    ReadsTo mode cs items ↔
      (readItems mode size cs).fault = none ∧
        (readItems mode size cs).items.map (·.item) = items := by
  constructor
  · intro h
    induction h with
    | finished h =>
      rw [readItems_of_finished size h]
      exact ⟨rfl, rfl⟩
    | item h _ ih =>
      rw [readItems_of_item size h]
      exact ⟨ih.1, congrArg (_ :: ·) ih.2⟩
  · rintro ⟨hfault, rfl⟩
    induction hlength : cs.length using Nat.strongRecOn generalizing cs with
    | ind n ih =>
      cases hnext : nextItem mode cs with
      | finished =>
        rw [readItems_of_finished size hnext]
        exact .finished hnext
      | malformed place =>
        rw [readItems_of_malformed size hnext] at hfault
        cases hfault
      | item start i rest =>
        rw [readItems_of_item size hnext] at hfault ⊢
        exact .item hnext (ih _ (hlength ▸ nextItem_length_lt hnext) hfault rfl)

/-- The same for the reading of a whole text. -/
theorem readsTo_iff_read {mode : Mode} {items : List Item} :
    ReadsTo mode cs items ↔
      (read mode (String.ofList cs)).fault = none ∧
        (read mode (String.ofList cs)).items.map (·.item) = items := by
  rw [read, String.toList_ofList]
  exact readsTo_iff _

section Spans

variable {mode : Mode} {start more after : List Char} {i : Item}

/-- Where no item follows, none spans a place. -/
theorem not_spans_of_finished (h : nextItem mode cs = .finished) (after : List Char) :
    ¬ Spans mode cs after := by
  rintro ⟨first, last, hat, -⟩
  cases hat with
  | here hnext | later hnext =>
    rw [h] at hnext
    cases hnext

/-- A place is spanned by the first item or by one of the others. -/
theorem spans_iff (h : nextItem mode cs = .item start i rest)
    (hitem : item mode start = some (i, more)) :
    Spans mode cs after ↔
      (after.length ≤ start.length ∧ more.length < after.length) ∨ Spans mode rest after := by
  constructor
  · rintro ⟨first, last, hat, hspan⟩
    cases hat with
    | here hnext hitem' =>
      rw [h] at hnext
      cases hnext
      rw [hitem] at hitem'
      cases hitem'
      exact .inl hspan
    | later hnext hrest =>
      rw [h] at hnext
      cases hnext
      exact .inr ⟨first, last, hrest, hspan⟩
  · rintro (hspan | ⟨first, last, hrest, hspan⟩)
    · exact ⟨start, more, .here h hitem, hspan⟩
    · exact ⟨first, last, .later h hrest, hspan⟩

end Spans

/-- A reading is finished where only blanks and comments are left. -/
theorem skipBlank_of_finished {mode : Mode} (h : nextItem mode cs = .finished) :
    skipBlank false cs = [] := by
  rw [nextItem] at h
  split at h
  · assumption
  · split at h
    · cases h
    · split at h <;> cases h

/-! ## The end of a quoted value -/

section closes

variable {quote : List Char} {multiline : Bool}

/-- What is left behind a quoted value. -/
def closes (quote : List Char) (multiline : Bool) (cs : List Char) : Option (List Char) :=
  (quotedBody quote multiline cs).map (·.2)

/-- Marks do not start with a character that is not one. -/
theorem isPrefixOf_of_not_mark (h : AreMarks quote) (hc : c ≠ '"' ∧ c ≠ '\'') (cs : List Char) :
    quote.isPrefixOf (c :: cs) = false := by
  obtain ⟨mark, quote, rfl⟩ := List.exists_cons_of_ne_nil h.1
  have hne : mark ≠ c := by
    rcases h.2 mark List.mem_cons_self with rfl | rfl
    · exact hc.1.symm
    · exact hc.2.symm
  rw [List.isPrefixOf_cons_cons, beq_false_of_ne hne, Bool.false_and]

/-- A plain character between marks is passed over. -/
theorem closes_plain (hquote : quote.isPrefixOf (c :: cs) = false) (hc : c ≠ '\\')
    (hline : c = '\n' → multiline = true) :
    closes quote multiline (c :: cs) = closes quote multiline cs := by
  rw [closes, quotedBody_plain hquote hc hline, Option.map_map]
  rfl

/-- A backslash is passed over together with the character behind it. -/
theorem closes_escape (h : AreMarks quote) (e : Char) (cs : List Char) :
    closes quote multiline ('\\' :: e :: cs) = closes quote multiline cs := by
  rw [closes, quotedBody_escape (isPrefixOf_of_not_mark h (by decide) _), Option.map_map]
  rfl

/-- A backslash at the end leaves the marks open. -/
theorem closes_backslash (h : AreMarks quote) : closes quote multiline ['\\'] = none := by
  rw [closes, quotedBody.eq_def]
  simp [isPrefixOf_of_not_mark h (show '\\' ≠ '"' ∧ '\\' ≠ '\'' by decide)]

/-- A line feed is passed over between marks that may hold several lines, and leaves other ones
open. -/
theorem closes_lineFeed (h : AreMarks quote) (cs : List Char) :
    closes quote multiline ('\n' :: cs) =
      if multiline then closes quote multiline cs else none := by
  have hquote := isPrefixOf_of_not_mark h (show '\n' ≠ '"' ∧ '\n' ≠ '\'' by decide) cs
  cases multiline with
  | true => exact closes_plain hquote (by decide) fun _ => rfl
  | false =>
    rw [closes, quotedBody.eq_def]
    simp [hquote]

/-- Quotes are behind what is read of a value. -/
theorem closes_length_lt (h : AreMarks quote) (hcs : closes quote multiline cs = some rest) :
    rest.length < cs.length := by
  obtain ⟨r, hbody, rfl⟩ := Option.map_eq_some_iff.mp hcs
  clear hcs
  fun_induction quotedBody quote multiline cs generalizing r with
  | case1 => cases hbody
  | case2 c cs hquote =>
    cases hbody
    have hpos := List.length_pos_iff.mpr h.1
    simp only [List.length_drop, List.length_cons]
    omega
  | case3 => cases hbody
  | case4 e cs hquote ih =>
    obtain ⟨s, hs, rfl⟩ := Option.map_eq_some_iff.mp hbody
    have hlt := ih s hs
    simp only [List.length_cons]
    omega
  | case5 => cases hbody
  | case6 c cs hquote hbackslash hline ih =>
    obtain ⟨s, hs, rfl⟩ := Option.map_eq_some_iff.mp hbody
    have hlt := ih s hs
    simp only [List.length_cons]
    omega

/-- A value that is not closed in `cs` is not closed at all, or it is closed where it would be if
`cs` were not there, but for a backslash at its end. -/
theorem closes_append (h : AreMarks quote) (hcs : quotedBody quote multiline cs = none) :
    (∀ tail, EndsItem tail → closes quote multiline (cs ++ tail) = none) ∨
      ∃ pending, (pending = [] ∨ pending = ['\\']) ∧ ∀ tail, EndsItem tail →
        closes quote multiline (cs ++ tail) = closes quote multiline (pending ++ tail) := by
  fun_induction quotedBody quote multiline cs with
  | case1 => exact .inr ⟨[], .inl rfl, fun _ _ => rfl⟩
  | case2 => cases hcs
  | case3 => exact .inr ⟨['\\'], .inr rfl, fun _ _ => rfl⟩
  | case4 e cs hquote ih =>
    simp only [List.cons_append, closes_escape h]
    exact ih (Option.map_eq_none_iff.mp hcs)
  | case5 c cs hquote hbackslash hline =>
    refine .inl fun tail _ => ?_
    rw [hline.1, List.cons_append, closes_lineFeed h, if_neg (by simpa using hline.2)]
  | case6 c cs hquote hbackslash hline ih =>
    -- a plain character is passed over, whatever follows
    have hplain (tail : List Char) (htail : EndsItem tail) :
        closes quote multiline (c :: cs ++ tail) = closes quote multiline (cs ++ tail) := by
      apply closes_plain _ hbackslash
      · intro hc
        simpa [hc] using hline
      · exact (isPrefixOf_append htail h.2 (c :: cs)).trans (Bool.eq_false_iff.mpr hquote)
    rcases ih (Option.map_eq_none_iff.mp hcs) with hnone | ⟨pending, hpending, hsame⟩
    · exact .inl fun tail htail => (hplain tail htail).trans (hnone tail htail)
    · exact .inr ⟨pending, hpending, fun tail htail => (hplain tail htail).trans (hsame tail htail)⟩

end closes

/-- A quoted value is the value. -/
theorem valueAfterSpaces_of_quotedValue {r : List Char × List Char} (h : quotedValue cs = some r) :
    valueAfterSpaces cs = r := by
  obtain ⟨q, hmem, hquoted⟩ := List.exists_of_findSome?_eq_some h
  have hmarks := areMarks_of_mem hmem
  cases cs with
  | nil => cases h
  | cons c cs =>
    have hc : c = '"' ∨ c = '\'' := by
      by_contra hnot
      rw [quoted, isPrefixOf_of_not_mark hmarks (not_or.mp hnot), if_neg Bool.false_ne_true]
        at hquoted
      cases hquoted
    rw [valueAfterSpaces_eq, h]
    rcases hc with rfl | rfl <;> rfl

/-! ## Commands -/

/-- The name of a command behind its mark, and what stands behind the opening parenthesis. -/
def commandName (cs : List Char) : Option (List Char × List Char) :=
  (word .config cs).bind fun r =>
    match skipSpaces r.2 with
    | '(' :: body => some (r.1, body)
    | _ => none

/-- The argument of a command, up to the closing parenthesis. -/
def argument (body : List Char) : Option (List Char × List Char) :=
  match body.dropWhile (· != ')') with
  | _ :: rest => some (trim (body.takeWhile (· != ')')), rest)
  | [] => none

/-- A command is its name and its argument. -/
theorem command_eq (cs : List Char) :
    command ('@' :: cs) =
      (commandName cs).bind fun r =>
        (argument r.2).map fun a => (.command (String.ofList r.1) (String.ofList a.1), a.2) := by
  rw [command, commandName]
  cases word .config cs with
  | none => rfl
  | some r =>
    dsimp only [Option.bind_some]
    cases skipSpaces r.2 with
    | nil => rfl
    | cons c body =>
      by_cases hc : c = '('
      · subst hc
        show (match body.dropWhile (· != ')') with
            | _ :: rest =>
              some (.command (String.ofList r.1)
                (String.ofList (trim (body.takeWhile (· != ')')))), rest)
            | [] => none) =
          (argument body).map fun a => (Item.command (String.ofList r.1) (String.ofList a.1), a.2)
        rw [argument]
        cases body.dropWhile (· != ')') <;> rfl
      · simp [hc]

/-- The name of a command does not depend on what follows the item. -/
theorem commandName_append (h : EndsItem tail) (cs : List Char) :
    commandName (cs ++ tail) = (commandName cs).map (withTail tail) := by
  rw [commandName, commandName, word_append_tail h]
  cases word .config cs with
  | none => rfl
  | some r =>
    dsimp only [Option.map_some, Option.bind_some, withTail]
    rw [skipSpaces_append]
    by_cases hblank : skipSpaces r.2 = []
    · rw [if_pos hblank, hblank]
      cases htail : skipSpaces tail with
      | nil => rfl
      | cons c rest =>
        rcases h.head_skipSpaces c (by rw [htail]; rfl) with rfl | rfl <;> rfl
    · obtain ⟨c, body, hcons⟩ := List.exists_cons_of_ne_nil hblank
      rw [if_neg hblank, hcons, List.cons_append]
      by_cases hc : c = '('
      · subst hc
        rfl
      · simp [hc]

/-- An argument ends at the first closing parenthesis, whatever stands behind it. -/
theorem argument_append {r : List Char × List Char} (h : argument cs = some r)
    (tail : List Char) : argument (cs ++ tail) = some (withTail tail r) := by
  rw [argument] at h
  split at h
  · rename_i d rest hrest
    cases h
    have hsplit : cs ++ tail = cs.takeWhile (· != ')') ++ d :: (rest ++ tail) := by
      rw [← List.cons_append, ← hrest, ← List.append_assoc, List.takeWhile_append_dropWhile]
    have hbefore : ∀ c ∈ cs.takeWhile (· != ')'), (c != ')') = true :=
      fun _ hc => by simpa using List.mem_takeWhile_imp hc
    have hstop : ∀ c ∈ (d :: (rest ++ tail)).head?, (c != ')') = false := by
      have hhead := List.head?_dropWhile_not (· != ')') cs
      rw [hrest] at hhead
      rintro _ ⟨⟩
      exact hhead
    rw [argument, hsplit, dropWhile_append_of_stop hbefore hstop,
      takeWhile_append_of_stop hbefore hstop]
    rfl
  · cases h

/-- An argument that is closed by what was appended ends inside it. -/
theorem length_lt_of_argument_append {r : List Char × List Char} (h : argument cs = none)
    (hread : argument (cs ++ tail) = some r) : r.2.length < tail.length := by
  rw [argument] at h
  split at h
  · cases h
  · rename_i hnil
    rw [argument, List.dropWhile_append, hnil, List.isEmpty_nil, if_pos rfl] at hread
    split at hread
    · rename_i d rest hrest
      cases hread
      have hle := (List.dropWhile_suffix (l := tail) (· != ')')).length_le
      rw [hrest] at hle
      exact hle
    · cases hread

/-- An item that starts with `@` is a command. -/
theorem item_of_at (cs : List Char) : item .config ('@' :: cs) = command ('@' :: cs) := by
  have hassign : assign .config ('@' :: cs) = none := by
    rw [assign_eq]
    rfl
  rw [item, header_of_ne (by decide), hassign, Option.none_or, Option.or_none]

/-! ## A comment at a line end -/

/-- A comment that is put at a line end. It has no characters that mean something between quotes. -/
structure Remark where
  /-- The text from the line end on. -/
  after : List Char
  comment : List Char
  atLineEnd_after : atLineEnd after = true
  inert : ∀ c ∈ comment, c ≠ '"' ∧ c ≠ '\'' ∧ c ≠ '\\' ∧ c ≠ '\n'

namespace Remark

variable (m : Remark)

/-- The text from the line end on, with the comment in front of it. -/
def chars : List Char :=
  ' ' :: '#' :: (m.comment ++ m.after)

/-- The comment is on one line. -/
theorem not_mem_comment : '\n' ∉ m.comment :=
  fun hmem => (m.inert _ hmem).2.2.2 rfl

/-- An item can end in front of the line end. -/
theorem endsItem_after : EndsItem m.after :=
  .of_atLineEnd m.atLineEnd_after

/-- An item can end in front of the comment. -/
theorem endsItem_chars : EndsItem m.chars :=
  .inr ⟨rfl, rfl⟩

/-- The comment is skipped up to the line end. -/
theorem skipTail_chars : skipTail m.chars = m.after := by
  have hcomment : skipLine ('#' :: m.comment) = [] :=
    skipLine_of_not_mem (List.not_mem_cons_of_ne_of_not_mem (by decide) m.not_mem_comment)
  have hline : skipLine m.chars = skipLine ('#' :: m.comment ++ m.after) := rfl
  rw [m.endsItem_chars.skipTail_eq, hline, skipLine_append, if_pos hcomment,
    skipLine_of_atLineEnd m.atLineEnd_after]

/-- Without it there is nothing to skip. -/
theorem skipTail_after : skipTail m.after = m.after :=
  skipTail_of_atLineEnd m.atLineEnd_after

/-! ### Quotes -/

section closes

variable {quote : List Char} {multiline : Bool} {m}

/-- A comment between marks is passed over, as it has no character that means something there. -/
theorem closes_comment (h : AreMarks quote) {comment : List Char}
    (hcomment : ∀ c ∈ comment, c ≠ '"' ∧ c ≠ '\'' ∧ c ≠ '\\' ∧ c ≠ '\n') (after : List Char) :
    closes quote multiline (comment ++ after) = closes quote multiline after := by
  induction comment with
  | nil => rfl
  | cons c comment ih =>
    obtain ⟨⟨hdouble, hsingle, hbackslash, hline⟩, hothers⟩ := List.forall_mem_cons.mp hcomment
    rw [List.cons_append, closes_plain (isPrefixOf_of_not_mark h ⟨hdouble, hsingle⟩ _) hbackslash
      (absurd · hline), ih hothers]

/-- No value is closed within the comment. So what is closed behind it is closed there without the
comment. -/
theorem closes_of_closes_chars (h : AreMarks quote) {pending : List Char}
    (hpending : pending = [] ∨ pending = ['\\'])
    (hchars : closes quote multiline (pending ++ m.chars) = some rest) :
    closes quote multiline (pending ++ m.after) = some rest := by
  have hmarked : ∀ c ∈ '#' :: m.comment, c ≠ '"' ∧ c ≠ '\'' ∧ c ≠ '\\' ∧ c ≠ '\n' :=
    List.forall_mem_cons.mpr ⟨by decide, m.inert⟩
  have hspaced : ∀ c ∈ ' ' :: '#' :: m.comment, c ≠ '"' ∧ c ≠ '\'' ∧ c ≠ '\\' ∧ c ≠ '\n' :=
    List.forall_mem_cons.mpr ⟨by decide, hmarked⟩
  rcases hpending with rfl | rfl
  · exact (closes_comment h hspaced m.after).symm.trans hchars
  · -- the backslash takes the space, and without the comment the line feed
    have hafter : closes quote multiline m.after = some rest := by
      rw [← closes_comment h hmarked m.after, ← closes_escape h ' ']
      exact hchars
    cases hcons : m.after with
    | nil =>
      rw [hcons] at hafter
      cases hafter
    | cons c more =>
      obtain rfl := atLineEnd_iff.mp m.atLineEnd_after c (by rw [hcons]; rfl)
      rw [hcons, closes_lineFeed h] at hafter
      rw [List.singleton_append, closes_escape h]
      split at hafter
      · exact hafter
      · cases hafter

/-- Marks that are closed behind a pending part are closed behind the line end. -/
theorem length_lt_of_closes (h : AreMarks quote) {pending after : List Char}
    (hpending : pending = [] ∨ pending = ['\\'])
    (hafter : closes quote multiline (pending ++ after) = some rest) :
    rest.length < after.length := by
  rcases hpending with rfl | rfl
  · exact closes_length_lt h hafter
  · cases after with
    | nil =>
      rw [List.append_nil, closes_backslash h] at hafter
      cases hafter
    | cons c after =>
      rw [List.singleton_append, closes_escape h] at hafter
      exact (closes_length_lt h hafter).trans (Nat.lt_succ_self _)

variable (m) in
/-- What is not closed in front of the line end, and is closed behind the comment, is closed at the
same place without the comment. -/
theorem closes_append_chars (h : AreMarks quote) (hcs : quotedBody quote multiline cs = none)
    (hchars : closes quote multiline (cs ++ m.chars) = some rest) :
    closes quote multiline (cs ++ m.after) = some rest := by
  rcases closes_append h hcs with hnone | ⟨pending, hpending, hsame⟩
  · rw [hnone _ m.endsItem_chars] at hchars
    cases hchars
  · rw [hsame _ m.endsItem_chars] at hchars
    rw [hsame _ m.endsItem_after]
    exact closes_of_closes_chars h hpending hchars

variable (m) in
/-- Marks that are open in front of the line end are closed behind it. -/
theorem length_lt_of_closes_append (h : AreMarks quote)
    (hcs : quotedBody quote multiline cs = none)
    (hafter : closes quote multiline (cs ++ m.after) = some rest) :
    rest.length < m.after.length := by
  rcases closes_append h hcs with hnone | ⟨pending, hpending, hsame⟩
  · rw [hnone _ m.endsItem_after] at hafter
    cases hafter
  · rw [hsame _ m.endsItem_after] at hafter
    exact length_lt_of_closes h hpending hafter

end closes

/-! ### Readers in front of the line end -/

/-- In front of the line end a reader finds what it finds in `cs` alone, with the comment and
without it, or it gets past the line end. -/
inductive Passes {α : Type} (read : List Char → Option (α × List Char)) (cs : List Char) : Prop
  | within (hafter : read (cs ++ m.after) = (read cs).map (withTail m.after))
      (hchars : read (cs ++ m.chars) = (read cs).map (withTail m.chars))
  | beyond {r : α × List Char} (hread : read (cs ++ m.after) = some r)
      (hlt : r.2.length < m.after.length)

section quoted

variable {quote : List Char} {multiline : Bool}

/-- Behind marks that are opened, the value is what is read up to those that close it. -/
theorem quoted_append_of_opened (h : AreMarks quote) (hquote : quote.isPrefixOf cs = true)
    (htail : EndsItem tail) :
    quoted quote multiline (cs ++ tail) =
      (quotedBody quote multiline (cs.drop quote.length ++ tail)).filter
        fun r => lineRestIsBlank r.2 := by
  have hlength := (List.isPrefixOf_iff_prefix.mp hquote).length_le
  rw [quoted, isPrefixOf_append htail h.2, if_pos hquote, List.drop_append_of_le_length hlength]

/-- A value that is not closed in front of the line end spans it, or it is not closed behind the
comment either. -/
theorem quoted_passes_of_not_closed (h : AreMarks quote) (hquote : quote.isPrefixOf cs = true)
    (hbody : quotedBody quote multiline (cs.drop quote.length) = none) :
    m.Passes (quoted quote multiline) cs := by
  have hnone : quoted quote multiline cs = none := by
    rw [quoted, if_pos hquote, hbody, Option.filter_none]
  cases hread : quoted quote multiline (cs ++ m.after) with
  | some r =>
    refine .beyond hread ?_
    rw [quoted_append_of_opened h hquote m.endsItem_after] at hread
    have hsome := (Option.filter_eq_some_iff.mp hread).1
    exact m.length_lt_of_closes_append h hbody (by rw [closes, hsome, Option.map_some])
  | none =>
    -- if these quotes fitted with the comment, they would fit without it at the same place
    refine .within (by rw [hread, hnone, Option.map_none]) ?_
    rw [hnone, Option.map_none]
    by_contra hchars
    obtain ⟨r, hchars⟩ := Option.ne_none_iff_exists'.mp hchars
    rw [quoted_append_of_opened h hquote m.endsItem_chars] at hchars
    obtain ⟨hsome, hblank⟩ := Option.filter_eq_some_iff.mp hchars
    obtain ⟨r', hsome', hrest⟩ := Option.map_eq_some_iff.mp
      (m.closes_append_chars h hbody (by rw [closes, hsome, Option.map_some]))
    rw [quoted_append_of_opened h hquote m.endsItem_after, hsome', Option.filter_some, hrest,
      if_pos hblank] at hread
    cases hread

/-- A value in certain marks is found as without the comment, or gets past the line end. -/
theorem quoted_passes (h : AreMarks quote) (multiline : Bool) (cs : List Char) :
    m.Passes (quoted quote multiline) cs := by
  by_cases hopen : quote.isPrefixOf cs = true ∧
      quotedBody quote multiline (cs.drop quote.length) = none
  · exact m.quoted_passes_of_not_closed h hopen.1 hopen.2
  · have hsame (tail : List Char) (htail : EndsItem tail) : quoted quote multiline (cs ++ tail) =
        (quoted quote multiline cs).map (withTail tail) := by
      apply quoted_append htail h
      intro hquote
      obtain ⟨r, hbody⟩ := Option.ne_none_iff_exists'.mp fun hnone => hopen ⟨hquote, hnone⟩
      rw [hbody]
      exact quotedBody_append_of_eq_some htail h hbody
    exact .within (hsame _ m.endsItem_after) (hsame _ m.endsItem_chars)

end quoted

/-- If several readers are tried one after the other, this goes for the first that fits. -/
theorem findSome?_passes {α β : Type} {read : β → List Char → Option (α × List Char)}
    {l : List β} (h : ∀ b ∈ l, m.Passes (read b) cs) :
    m.Passes (fun cs => l.findSome? fun b => read b cs) cs := by
  induction l with
  | nil => exact .within rfl rfl
  | cons b l ih =>
    obtain ⟨hb, hl⟩ := List.forall_mem_cons.mp h
    cases hb with
    | beyond hread hlt => exact .beyond (by rw [List.findSome?_cons, hread]) hlt
    | within hafter hchars =>
      -- the kinds are tried in order, and one that finds nothing in front of the line end leaves it
      -- to the next
      cases hnone : read b cs with
      | some r =>
        rw [hnone] at hafter hchars
        exact .within (by simp [hafter, hnone]) (by simp [hchars, hnone])
      | none =>
        rw [hnone] at hafter hchars
        rcases ih hl with ⟨hafter', hchars'⟩ | ⟨hread, hlt⟩
        · exact .within (by simpa [hafter, hnone] using hafter')
            (by simpa [hchars, hnone] using hchars')
        · exact .beyond (by simpa [hafter] using hread) hlt

/-- So is a quoted value. -/
theorem quotedValue_passes (cs : List Char) : m.Passes quotedValue cs :=
  m.findSome?_passes fun q hq => m.quoted_passes (areMarks_of_mem hq) q.2 cs

/-! ### Values and arguments -/

/-- What is left behind an item stands in front of the line end, but for blanks and comments. -/
def Alike (rest rest' : List Char) : Prop :=
  ∃ cs, skipTail rest = skipTail (cs ++ m.after) ∧ skipTail rest' = skipTail (cs ++ m.chars)

/-- A value is the same with the comment and without it, or it spans the line end. -/
theorem value_passes (cs : List Char) :
    ((value (cs ++ m.chars)).1 = (value (cs ++ m.after)).1 ∧
        m.Alike (value (cs ++ m.after)).2 (value (cs ++ m.chars)).2) ∨
      (value (cs ++ m.after)).2.length < m.after.length := by
  -- with the quoted value found, or missed, alike in both texts, the whole value is alike
  have hwithin (hquoted : skipSpaces cs ≠ [] → ∀ tail, tail = m.after ∨ tail = m.chars →
      quotedValue (skipSpaces cs ++ tail) =
        (quotedValue (skipSpaces cs)).map (withTail tail)) :
      (value (cs ++ m.chars)).1 = (value (cs ++ m.after)).1 ∧
        m.Alike (value (cs ++ m.after)).2 (value (cs ++ m.chars)).2 := by
    obtain ⟨hafter, hafter'⟩ :=
      value_append m.endsItem_after fun hne => hquoted hne _ (.inl rfl)
    obtain ⟨hchars, hchars'⟩ :=
      value_append m.endsItem_chars fun hne => hquoted hne _ (.inr rfl)
    exact ⟨hchars.trans hafter.symm, _, hafter', hchars'⟩
  by_cases hne : skipSpaces cs = []
  · exact .inl (hwithin fun h => absurd hne h)
  · rcases m.quotedValue_passes (skipSpaces cs) with ⟨hafter, hchars⟩ | ⟨hread, hlt⟩
    · refine .inl (hwithin fun _ => ?_)
      rintro _ (rfl | rfl)
      · exact hafter
      · exact hchars
    · right
      rw [value, skipSpaces_append, if_neg hne, valueAfterSpaces_of_quotedValue hread]
      exact hlt

/-- A command is the same with the comment and without it, or its argument spans the line end. -/
theorem command_passes {i : Item}
    (hcommand : command ('@' :: cs ++ m.after) = some (i, rest)) :
    rest.length < m.after.length ∨
      ∃ more, rest = more ++ m.after ∧
        command ('@' :: cs ++ m.chars) = some (i, more ++ m.chars) := by
  rw [List.cons_append, command_eq, commandName_append m.endsItem_after] at hcommand
  rw [List.cons_append, command_eq, commandName_append m.endsItem_chars]
  cases hname : commandName cs with
  | none =>
    rw [hname] at hcommand
    cases hcommand
  | some r =>
    obtain ⟨name, body⟩ := r
    rw [hname] at hcommand
    dsimp only [Option.map_some, Option.bind_some, withTail] at hcommand ⊢
    cases hbody : argument body with
    | none =>
      obtain ⟨r, hread, heq⟩ := Option.map_eq_some_iff.mp hcommand
      obtain ⟨-, rfl⟩ := Prod.mk.inj heq
      -- the argument is closed behind the line end
      exact .inl (length_lt_of_argument_append hbody hread)
    | some r =>
      rw [argument_append hbody] at hcommand ⊢
      cases hcommand
      exact .inr ⟨r.2, rfl, rfl⟩

/-- An item is the same with the comment and without it, or it spans the line end. -/
theorem item_passes {i : Item} (hitem : item .config (cs ++ m.after) = some (i, rest)) :
    rest.length < m.after.length ∨
      ∃ rest', item .config (cs ++ m.chars) = some (i, rest') ∧ m.Alike rest rest' := by
  -- only commands start with `@`, and nothing else is tried if they do
  by_cases hat : cs.head? = some '@'
  · obtain ⟨more, rfl⟩ := List.head?_eq_some_iff.mp hat
    rw [List.cons_append, item_of_at] at hitem ⊢
    rcases m.command_passes hitem with hlt | ⟨left, rfl, hchars⟩
    · exact .inl hlt
    · exact .inr ⟨_, hchars, left, rfl, rfl⟩
  · have hhead {tail : List Char} (htail : EndsItem tail) : (cs ++ tail).head? ≠ some '@' := by
      intro hmem
      by_cases hne : cs = []
      · rw [hne] at hmem
        exact absurd (htail.not_beq (b := '@') (by decide) (by decide) '@' hmem) (by decide)
      · rw [head?_append_of_ne_nil hne] at hmem
        exact hat hmem
    rw [item_of_head (hhead m.endsItem_after), header_append_tail m.endsItem_after, assign_eq,
      target_append m.endsItem_after] at hitem
    rw [item_of_head (hhead m.endsItem_chars), header_append_tail m.endsItem_chars, assign_eq,
      target_append m.endsItem_chars]
    cases hheader : header .config cs with
    | some r =>
      rw [hheader] at hitem
      cases hitem
      exact .inr ⟨_, rfl, r.2, rfl, rfl⟩
    | none =>
      rw [hheader] at hitem
      cases htarget : target cs with
      | none =>
        rw [htarget] at hitem
        cases hitem
      | some r =>
        obtain ⟨t, text⟩ := r
        rw [htarget] at hitem
        dsimp only [Option.map_none, Option.none_or, Option.map_some, withTail] at hitem ⊢
        cases hitem
        rcases m.value_passes text with ⟨hvalue, halike⟩ | hlt
        · exact .inr ⟨_, by rw [hvalue], halike⟩
        · exact .inl hlt

/-! ### Reading past the line end -/

/-- The comment is skipped with the blank around it. -/
theorem skipBlank_chars : skipBlank false m.chars = skipBlank false m.after :=
  skipBlank_comment_append m.not_mem_comment m.atLineEnd_after

/-- Blank lines and comments end in front of the line end, or they go on behind it. -/
theorem skipBlank_append (inComment : Bool) (cs : List Char) :
    (∃ start, start ≠ [] ∧ ∀ tail, skipBlank inComment (cs ++ tail) = start ++ tail) ∨
      skipBlank inComment (cs ++ m.chars) = skipBlank inComment (cs ++ m.after) := by
  induction cs generalizing inComment with
  | nil =>
    right
    cases inComment with
    | false => exact m.skipBlank_chars
    | true =>
      -- inside a comment the new one is only more of it
      have hline : '\n' ∉ ' ' :: '#' :: m.comment := by
        simp [m.not_mem_comment]
      have hafter := skipBlank_comment_append List.not_mem_nil m.atLineEnd_after
      exact (skipBlank_comment_append hline m.atLineEnd_after).trans hafter.symm
  | cons c cs ih =>
    cases inComment with
    | true =>
      simp only [List.cons_append, skipBlank]
      split
      · exact ih false
      · exact ih true
    | false =>
      simp only [List.cons_append, skipBlank]
      split
      · exact ih false
      · split
        · exact ih true
        · exact .inl ⟨c :: cs, List.cons_ne_nil c cs, fun _ => rfl⟩

/-- The same items are read with the comment, unless one of them spans the line end. -/
theorem readsTo_append_chars {all : List Char} {items : List Item}
    (hread : ReadsTo .config all items) (hspans : ¬ Spans .config all m.after)
    (hall : all = cs ++ m.after) :
    ReadsTo .config (cs ++ m.chars) items := by
  induction hread generalizing cs with
  | finished h =>
    subst hall
    rcases m.skipBlank_append false cs with ⟨start, hne, hstart⟩ | hsame
    · have hnil := skipBlank_of_finished h
      rw [hstart] at hnil
      exact absurd (List.append_eq_nil_iff.mp hnil).1 hne
    · exact .finished ((nextItem_congr hsame).trans h)
  | @item all start rest i items h hrest ih =>
    subst hall
    rcases m.skipBlank_append false cs with ⟨place, hne, hplace⟩ | hsame
    · obtain ⟨hstart, more, hitem, hmore, hline⟩ := nextItem_eq_item_iff.mp h
      rw [hplace] at hstart
      subst hstart
      rw [spans_iff h hitem] at hspans
      rcases m.item_passes hitem with hlt | ⟨more', hitem', left, hleft, hleft'⟩
      · refine absurd (.inl ⟨?_, hlt⟩) hspans
        rw [List.length_append]
        exact Nat.le_add_left _ _
      rw [hmore, skipTail_append m.endsItem_after, m.skipTail_after] at hleft
      rw [skipTail_append m.endsItem_chars, m.skipTail_chars] at hleft'
      -- if nothing is left in front of the line end, both texts go on with what is behind it
      by_cases hnil : skipTail left = []
      · rw [if_pos hnil] at hleft hleft'
        subst hleft
        exact .item (nextItem_eq_item_iff.mpr ⟨hplace _, more', hitem', hleft', hline⟩) hrest
      · rw [if_neg hnil] at hleft hleft'
        subst hleft
        have hline' : atLineEnd (skipTail left ++ m.chars) = true := by
          obtain ⟨c, left', hcons⟩ := List.exists_cons_of_ne_nil hnil
          rw [hcons] at hline ⊢
          exact hline
        exact .item (nextItem_eq_item_iff.mpr ⟨hplace _, more', hitem', hleft', hline'⟩)
          (ih (fun hrest => hspans (.inr hrest)) rfl)
    · exact .item ((nextItem_congr hsame).trans h) hrest

end Remark

/-- A comment may be put behind any line of a text that is read to its end, unless an item spans the
line end: the text is read to its end with the same items. -/
theorem read_insert_comment {before after comment : List Char} (hline : atLineEnd after = true)
    (hcomment : ∀ c ∈ comment, c ≠ '"' ∧ c ≠ '\'' ∧ c ≠ '\\' ∧ c ≠ '\n')
    (hread : (read .config (String.ofList (before ++ after))).fault = none)
    (hspans : ¬ Spans .config (before ++ after) after) :
    (read .config (String.ofList (before ++ ' ' :: '#' :: (comment ++ after)))).fault = none ∧
      (read .config (String.ofList (before ++ ' ' :: '#' :: (comment ++ after)))).items.map
          (·.item) =
        (read .config (String.ofList (before ++ after))).items.map (·.item) := by
  have hitems := readsTo_iff_read.mpr ⟨hread, rfl⟩
  exact readsTo_iff_read.mp
    (Remark.readsTo_append_chars ⟨after, comment, hline, hcomment⟩ hitems hspans rfl)

/-- A comment behind a value that spans lines, in front of a header. -/
theorem read_insert_comment_behind_value :
    ¬ Spans .config ("a = '''\n'''".toList ++ "\n[b]".toList) "\n[b]".toList ∧
      (read .config (String.ofList
        ("a = '''\n'''".toList ++ ' ' :: '#' :: (")".toList ++ "\n[b]".toList)))).fault = none ∧
      (read .config (String.ofList
        ("a = '''\n'''".toList ++ ' ' :: '#' :: (")".toList ++ "\n[b]".toList)))).items.map
          (·.item) =
        [.assign none "a" .deferred "\n", .header 1 1 "b"] := by
  have hassign : nextItem .config ("a = '''\n'''".toList ++ "\n[b]".toList) =
      .item ("a = '''\n'''".toList ++ "\n[b]".toList) (.assign none "a" .deferred "\n")
        "\n[b]".toList := by decide +kernel
  have hheader : nextItem .config "\n[b]".toList = .item "[b]".toList (.header 1 1 "b") [] := by
    decide
  have hspans : ¬ Spans .config ("a = '''\n'''".toList ++ "\n[b]".toList) "\n[b]".toList := by
    have hvalue : item .config ("a = '''\n'''".toList ++ "\n[b]".toList) =
        some (.assign none "a" .deferred "\n", "\n[b]".toList) := by decide +kernel
    have hname : item .config "[b]".toList = some (.header 1 1 "b", []) := by decide
    have hend :=
      not_spans_of_finished (show nextItem .config [] = .finished from rfl) "\n[b]".toList
    rw [spans_iff hassign hvalue, spans_iff hheader hname, or_iff_left hend]
    decide
  obtain ⟨hfault, hitems⟩ := readsTo_iff_read.mp (.item hassign (.item hheader (.finished rfl)))
  obtain ⟨hfault', hsame⟩ :=
    @read_insert_comment _ _ ")".toList rfl (forall_mem_of_all (by decide)) hfault hspans
  exact ⟨hspans, hfault', hsame.trans hitems⟩

end LayeredConfig.Document
