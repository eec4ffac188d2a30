import LayeredConfig.Proofs.Document.LineForms
import LayeredConfig.Proofs.Document.Reads
import LayeredConfig.Proofs.Document.SingleMarks

/-!
# The cursor reads what the grammar says

Every part of a reading does on bytes what a reader of the grammar does on the characters that are
left: it has the same result and stands where the reader's rest begins. So none of them leaves the
text, cuts a character or runs on for ever. They follow one another here in the order of the
grammar, up to a whole item with the blank lines and comments before it (`reads_nextItem`).
-/

namespace LayeredConfig

namespace Text

variable {cs : List Char} {c : Char}

/-- A run of one character that takes a byte takes as many bytes as there are of it. -/
theorem byteLength_of_forall_eq (hc : c.utf8Size = 1) (h : ∀ d ∈ cs, d = c) :
    byteLength cs = cs.length := by
  induction cs with
  | nil => rfl
  | cons d cs ih =>
    rw [List.forall_mem_cons] at h
    rw [byteLength_cons, List.length_cons, ih h.2, h.1, hc, Nat.add_comm]

/-- So does a run that is taken from the start of a text. -/
theorem byteLength_takeWhile_beq (hc : c.utf8Size = 1) (cs : List Char) :
    byteLength (cs.takeWhile (· == c)) = (cs.takeWhile (· == c)).length := by
  apply byteLength_of_forall_eq hc
  intro d hd
  simpa using List.mem_takeWhile_imp hd

/-- What is dropped at the end of a text is a run of characters there. -/
theorem dropTrailing_append (p : Char → Bool) (cs : List Char) :
    dropTrailing p cs ++ (cs.reverse.takeWhile p).reverse = cs := by
  rw [dropTrailing, ← List.reverse_append, List.takeWhile_append_dropWhile, List.reverse_reverse]

/-- What such a run at the end takes can be counted in bytes and in characters. -/
theorem byteLength_sub_dropTrailing (hc : c.utf8Size = 1) (cs : List Char) :
    byteLength cs - byteLength (dropTrailing (· == c) cs) =
      cs.length - (dropTrailing (· == c) cs).length := by
  have hsplit := dropTrailing_append (· == c) cs
  have hbytes := congrArg byteLength hsplit
  have hlength := congrArg List.length hsplit
  have hrun : byteLength (cs.reverse.takeWhile (· == c)).reverse =
      (cs.reverse.takeWhile (· == c)).reverse.length := by
    apply byteLength_of_forall_eq hc
    intro d hd
    simpa using List.mem_takeWhile_imp (List.mem_reverse.mp hd)
  rw [byteLength_append] at hbytes
  rw [List.length_append] at hlength
  omega

/-- A text gets shorter where something is dropped from its end. -/
theorem byteLength_dropTrailing_lt_iff (p : Char → Bool) (cs : List Char) :
    byteLength (dropTrailing p cs) < byteLength cs ↔ dropTrailing p cs ≠ cs := by
  have hsplit := dropTrailing_append p cs
  constructor
  · intro hlt heq
    rw [heq] at hlt
    omega
  · intro hne
    have hpos : 0 < byteLength (cs.reverse.takeWhile p).reverse := by
      apply byteLength_pos
      intro hnil
      rw [hnil, List.append_nil] at hsplit
      exact hne hsplit
    have hbytes := congrArg byteLength hsplit
    rw [byteLength_append] at hbytes
    omega

end Text

namespace Document.Cursor

open Text

variable {text as cs cs' : List Char} {c : Char}

/-! ## Headers and commands -/

/-- A name is found as a word is. -/
theorem finds_name (mode : Mode) (text cs : List Char) :
    Finds (name mode text) cs (word mode cs) := by
  have hsplit := List.takeWhile_append_dropWhile (p := isNameChar mode) (l := cs)
  rw [word]
  split
  · rename_i hnil
    refine ⟨cs, reads_rest.bind ?_⟩
    rw [hnil]
    exact reads_pure none
  · rename_i hne
    show Reads (name mode text).run cs _ _
    refine reads_rest.bind ?_
    generalize cs.takeWhile (isNameChar mode) = taken at hsplit hne
    generalize cs.dropWhile (isNameChar mode) = left at hsplit
    subst hsplit
    rw [if_neg (byteLength_pos hne).ne']
    exact (reads_moveBy taken left).bind ((reads_cut taken left).bind (reads_pure (some taken)))

/-- The end of a header is found as in the grammar. -/
theorem finds_headerEnd (mode : Mode) (opening : Nat) (key cs : List Char) :
    Finds (headerEnd mode text opening key) cs (Document.headerEnd mode opening key cs) := by
  rw [headerEnd]
  unfold Document.headerEnd
  refine (reads_eatSpaces cs).bind_lift ((reads_eatWhile _ _).bind_lift ?_)
  by_cases hclosing : (skipSpaces cs).takeWhile (· == ']') = []
  · have hleft := List.takeWhile_append_dropWhile (p := (· == ']')) (l := skipSpaces cs)
    rw [hclosing, List.nil_append] at hleft
    rw [if_neg (not_not_intro hclosing), if_neg (not_not_intro hclosing), hleft]
    dsimp only
    rw [byteLength_sub_dropTrailing rfl]
    -- the two conditions differ in how they say that the name got shorter
    have hshorter := byteLength_dropTrailing_lt_iff (· == ']') key
    split
    · rename_i hswallowed
      refine finds_guard_bind ?_ (finds_pure _)
      rwa [hshorter]
    · rename_i hswallowed
      refine finds_guard_bind_none ?_
      rwa [hshorter]
  · rw [if_pos hclosing, if_pos hclosing, byteLength_takeWhile_beq rfl]
    exact finds_pure _

/-- A header is found as in the grammar. -/
theorem finds_header (mode : Mode) (cs : List Char) :
    Finds (header mode text) cs (Document.header mode cs) := by
  rw [header, Document.header]
  refine (reads_eatWhile _ cs).bind_lift ?_
  by_cases hopening : cs.takeWhile (· == '[') = []
  · rw [if_pos hopening]
    exact finds_guard_bind_none (not_not_intro hopening)
  rw [if_neg hopening, byteLength_takeWhile_beq rfl]
  refine finds_guard_bind hopening ((reads_eatSpaces _).bind_lift ?_)
  have hname := finds_name mode text (skipSpaces (cs.dropWhile (· == '[')))
  split
  · rename_i hword
    rw [hword] at hname
    exact hname.bind_none _
  · rename_i key left hword
    rw [hword] at hname
    exact hname.bind (finds_headerEnd mode _ key left)

/-- A character that does not occur is not found. -/
theorem find?_eq_none (h : cs.dropWhile (· != c) = []) : find? cs c = none := by
  rw [find?, if_neg]
  intro hmem
  simpa using List.dropWhile_eq_nil_iff.mp h c hmem

/-- A character is found at the byte behind those before it. -/
theorem find?_eq_some {d : Char} {left : List Char} (h : cs.dropWhile (· != c) = d :: left) :
    d = c ∧ find? cs c = some (byteLength (cs.takeWhile (· != c))) := by
  have hd : d = c := by
    have hstop := List.head?_dropWhile_not (· != c) cs
    rw [h] at hstop
    simpa using hstop
  have hmem : d ∈ cs := (List.dropWhile_suffix (· != c)).subset (h ▸ List.mem_cons_self)
  rw [find?, if_pos (hd ▸ hmem)]
  exact ⟨hd, rfl⟩

/-- A command is found as in the grammar. -/
theorem finds_command (cs : List Char) :
    Finds (command text) cs (Document.command cs) := by
  unfold command Document.command
  split
  · rename_i more
    refine finds_expect ?_
    have hname := finds_name .config text more
    split
    · rename_i hword
      rw [hword] at hname
      exact hname.bind_none _
    · rename_i key left hword
      rw [hword] at hname
      refine hname.bind ((reads_eatSpaces left).bind_lift ?_)
      split
      · rename_i body hbody
        rw [hbody]
        refine finds_expect (reads_rest.bind_lift ?_)
        have hsplit := List.takeWhile_append_dropWhile (p := (· != ')')) (l := body)
        split
        · rename_i d left' hdrop
          obtain ⟨rfl, hfind⟩ := find?_eq_some hdrop
          rw [hfind]
          rw [hdrop] at hsplit
          generalize body.takeWhile (· != ')') = argument at hsplit
          subst hsplit
          -- the closing parenthesis is passed over as well
          have hadvance := reads_advance text (argument ++ [')']) left'
          rw [byteLength_append, ← List.append_cons] at hadvance
          refine (finds_pure (byteLength argument)).bind (hadvance.bind_lift ?_)
          exact (reads_cut argument (')' :: left')).bind_lift (finds_pure _)
        · rename_i hdrop
          rw [find?_eq_none hdrop]
          exact Finds.bind_none (finds_failure) _
      · rename_i hbody
        exact finds_expect_none hbody
  · rename_i hat
    exact finds_expect_none hat

/-! ## Values -/

/-- A quoted value is read character by character, or given up in the midst of it. -/
theorem loops_quotedNext {quote : List Char} (hquote : quote ≠ []) (multiline : Bool)
    (read text cs : List Char) :
    Found (Loops (quotedNext text quote multiline) read cs)
      ((Document.quotedBody quote multiline cs).map fun r => (read ++ r.1, r.2)) := by
  fun_induction Document.quotedBody quote multiline cs generalizing read with
  | case1 =>
    have hnot (left : List Char) (h : [] = quote ++ left) : False :=
      hquote (List.append_eq_nil_iff.mp h.symm).1
    exact ⟨[], .done ((reads_eat_of_ne hnot).bind (reads_next_nil.bind (reads_pure _)))⟩
  | case2 c cs hprefix =>
    -- the closing marks end the loop
    obtain ⟨left, hleft⟩ := List.isPrefixOf_iff_prefix.mp hprefix
    rw [← hleft, List.drop_left, Option.map_some, List.append_nil]
    exact Loops.done ((reads_eat_append quote left).bind (reads_pure _))
  | case3 hnot =>
    refine ⟨[], .done ?_⟩
    refine (reads_eat_of_not (Bool.eq_false_iff.mpr hnot)).bind (reads_next_cons.bind ?_)
    exact reads_next_nil.bind (reads_pure _)
  | case4 e cs hnot ih =>
    -- the character behind a backslash is read with it, so that it cannot close the marks
    have h := ih (read ++ [escaped e])
    simp only [List.append_assoc, List.singleton_append] at h
    rw [Option.map_map]
    refine h.imp fun _ _ => .again ?_ (by simp only [List.length_cons]; omega)
    refine (reads_eat_of_not (Bool.eq_false_iff.mpr hnot)).bind (reads_next_cons.bind ?_)
    exact reads_next_cons.bind (reads_pure _)
  | case5 c cs hnot hescape hline =>
    refine ⟨cs, .done ?_⟩
    refine (reads_eat_of_not (Bool.eq_false_iff.mpr hnot)).bind (reads_next_cons.bind ?_)
    show Reads (if c = '\\' then _ else _) _ _ _
    rw [if_neg hescape, if_pos hline]
    exact reads_pure _
  | case6 c cs hnot hescape hline ih =>
    have h := ih (read ++ [c])
    simp only [List.append_assoc, List.singleton_append] at h
    rw [Option.map_map]
    refine h.imp fun _ _ => .again ?_ (Nat.lt_succ_self _)
    refine (reads_eat_of_not (Bool.eq_false_iff.mpr hnot)).bind (reads_next_cons.bind ?_)
    show Reads (if c = '\\' then _ else _) _ _ _
    rw [if_neg hescape, if_neg hline]
    exact reads_pure _

/-- What stands between marks is found as in the grammar. -/
theorem finds_quotedBody {quote : List Char} (hquote : quote ≠ []) (multiline : Bool)
    (text cs : List Char) :
    Finds (quotedBody text quote multiline) cs (Document.quotedBody quote multiline cs) := by
  have h := loops_quotedNext hquote multiline [] text cs
  simp only [List.nil_append, Option.map_id'] at h
  exact h.imp fun _ _ => Loops.reads

/-- Where a line ends, no comment starts. -/
theorem head_ne_of_atLineEnd (h : atLineEnd cs = true) : (cs.head? == some '#') = false := by
  cases cs with
  | nil => rfl
  | cons c cs =>
    obtain rfl := atLineEnd_iff.mp h c rfl
    rfl

/-- Looking ahead tells whether the rest of the line is blank. -/
theorem reads_lineRestIsBlank (cs : List Char) :
    Reads (lineRestIsBlank text) cs (Document.lineRestIsBlank cs) cs := by
  rw [lineRestIsBlank, Document.lineRestIsBlank, Document.skipTail, startsComment]
  refine Reads.ahead (show Reads _ cs _ (skipSpaces cs) from ?_)
  refine (reads_eatSpaces cs).bind (reads_lineEnds.bind ?_)
  cases hends : atLineEnd (skipSpaces cs) with
  | true =>
    rw [head_ne_of_atLineEnd hends, Bool.and_false, if_neg Bool.false_ne_true, hends]
    exact reads_pure true
  | false =>
    have hblank : atLineEnd (if (startsWithSpace cs && (skipSpaces cs).head? == some '#') = true
        then skipLine (skipSpaces cs) else skipSpaces cs) =
        (startsWithSpace cs && (skipSpaces cs).head? == some '#') := by
      split
      · rename_i hcomment
        rw [atLineEnd_skipLine, hcomment]
      · rename_i hcomment
        rw [hends, Bool.eq_false_iff.mpr hcomment]
    rw [hblank]
    exact (reads_startsWith '#').bind (reads_pure _)

/-- A value between quotes, whatever follows it. -/
theorem finds_quoted {quote : List Char} (hquote : quote ≠ []) (multiline : Bool)
    (text cs : List Char) :
    Finds (quoted text quote multiline) cs
      (if quote.isPrefixOf cs then Document.quotedBody quote multiline (cs.drop quote.length)
        else none) := by
  rw [quoted]
  split
  · rename_i hprefix
    obtain ⟨left, rfl⟩ := List.isPrefixOf_iff_prefix.mp hprefix
    rw [List.drop_left]
    refine (reads_eat_append _ _).bind_lift (finds_guard_bind rfl ?_)
    have hbody := finds_quotedBody hquote multiline text left
    simpa using hbody
  · rename_i hprefix
    refine (reads_eat_of_not (Bool.eq_false_iff.mpr hprefix)).bind_lift ?_
    exact finds_guard_bind_none Bool.false_ne_true

/-- A value between quotes counts if nothing but a comment follows it on its line. -/
theorem finds_quoted_alone {quote : List Char} (hquote : quote ≠ []) (multiline : Bool)
    (cs : List Char) :
    Finds
      (do let value ← quoted text quote multiline
          guard (← lineRestIsBlank text)
          return value) cs (Document.quoted quote multiline cs) := by
  have hquoted := finds_quoted hquote multiline text cs
  -- the grammar asks for a blank rest in the end, the cursor right behind the marks
  have hfilter : Document.quoted quote multiline cs =
      (if quote.isPrefixOf cs then Document.quotedBody quote multiline (cs.drop quote.length)
        else none).filter fun r => Document.lineRestIsBlank r.2 := by
    rw [Document.quoted]
    split <;> rfl
  rw [hfilter]
  generalize (if quote.isPrefixOf cs then
    Document.quotedBody quote multiline (cs.drop quote.length) else none) = found at hquoted
  cases found with
  | none => exact hquoted.bind_none _
  | some r =>
    obtain ⟨v, left⟩ := r
    refine hquoted.bind ((reads_lineRestIsBlank left).bind_lift ?_)
    rw [Option.filter_some]
    split
    · rename_i hblank
      exact finds_guard_bind hblank (finds_pure v)
    · rename_i hblank
      exact finds_guard_bind_none hblank

/-- The first kind of marks that fits is found as in the grammar, and the cursor comes back from the
others. -/
theorem tries_firstQuoted (kinds : List (List Char × Bool)) (hkinds : ∀ kind ∈ kinds, kind.1 ≠ [])
    (text cs : List Char) :
    Tries (firstQuoted text kinds) cs
      (kinds.findSome? fun (quote, multiline) => Document.quoted quote multiline cs) := by
  induction kinds with
  | nil => exact tries_failure
  | cons kind kinds ih =>
    obtain ⟨quote, multiline⟩ := kind
    obtain ⟨hquote, hothers⟩ := List.forall_mem_cons.mp hkinds
    have hcons : ((quote, multiline) :: kinds).findSome?
        (fun (quote, multiline) => Document.quoted quote multiline cs) =
        (Document.quoted quote multiline cs).or
          (kinds.findSome? fun (quote, multiline) => Document.quoted quote multiline cs) := by
      rw [List.findSome?_cons]
      dsimp only
      cases Document.quoted quote multiline cs <;> rfl
    rw [firstQuoted, hcons]
    exact (finds_quoted_alone hquote multiline cs).attempt.orElse (ih hothers)

/-- Looking ahead tells whether a comment follows. -/
theorem reads_commentFollows (cs : List Char) :
    Reads (commentFollows text) cs (startsComment cs) cs := by
  rw [commentFollows]
  exact ((reads_eatSpaces cs).bind (reads_startsWith '#')).ahead

/-- A comment that follows white space is looked for from the white space on. -/
theorem isSpace_and_startsComment (c : Char) (cs : List Char) :
    (isSpace c && startsComment (c :: cs)) = (isSpace c && startsComment cs) := by
  cases hspace : isSpace c with
  | true => rw [startsComment_cons_of_isSpace hspace]
  | false => rfl

/-- One step of an unquoted value takes a character, unless the value ends in front of it. -/
theorem reads_unquotedNext (text : List Char) (c : Char) (cs : List Char) :
    Reads (unquotedNext text) (c :: cs)
      (if c = '\n' ∨ (isSpace c ∧ startsComment cs) then .inr () else .inl ())
      (if c = '\n' ∨ (isSpace c ∧ startsComment cs) then c :: cs else cs) := by
  refine reads_rest.bind ?_
  show Reads (if c = '\n' then _ else _) _ _ _
  by_cases hline : c = '\n'
  · simp only [if_pos hline, if_pos (Or.inl hline)]
    exact reads_pure _
  rw [if_neg hline]
  -- a white space ends the value only in front of a comment
  refine (reads_commentFollows (c :: cs)).bind ?_
  simp only [isSpace_and_startsComment, Bool.and_eq_true, hline, false_or]
  split
  · exact reads_pure _
  · exact reads_moveBy_char.bind (reads_pure _)

/-- The end of a value without quotes is found character by character. -/
theorem loops_unquotedNext (text cs : List Char) :
    Loops (fun _ => unquotedNext text) () cs () (Document.unquoted cs).2 := by
  induction cs with
  | nil => exact .done (reads_rest.bind (reads_pure _))
  | cons c cs ih =>
    have hnext := reads_unquotedNext text c cs
    rw [Document.unquoted]
    split
    · rename_i hstop
      rw [if_pos hstop, if_pos hstop] at hnext
      exact .done hnext
    · rename_i hstop
      rw [if_neg hstop, if_neg hstop] at hnext
      exact .again hnext (Nat.lt_succ_self _) ih

/-- An unquoted value is read without the white space at its end. -/
theorem reads_unquoted (cs : List Char) :
    Reads (unquoted text) cs (dropTrailing isSpace (Document.unquoted cs).1)
      (Document.unquoted cs).2 := by
  rw [unquoted]
  refine reads_get_bind fun hcs => (loops_unquotedNext text cs).reads.bind ?_
  exact reads_get_bind fun _ => (reads_slice hcs (unquoted_append_eq cs)).bind (reads_pure _)

/-- A value is read as in the grammar. -/
theorem reads_value (cs : List Char) :
    Reads (value text) cs (Document.value cs).1 (Document.value cs).2 := by
  rw [value, Document.value, valueAfterSpaces]
  refine (reads_eatSpaces cs).bind ?_
  generalize skipSpaces cs = cs
  refine (reads_startsWith '#').bind ?_
  by_cases hcomment : cs.head? = some '#'
  · rw [if_pos (by simpa using hcomment), if_pos hcomment]
    exact (reads_eatLine text cs).bind (reads_pure [])
  rw [if_neg (by simpa using hcomment), if_neg hcomment]
  refine reads_lineEnds.bind ?_
  by_cases hends : atLineEnd cs = true
  · rw [if_pos hends, if_pos hends]
    exact reads_pure []
  rw [if_neg hends, if_neg hends]
  have hquoted := tries_firstQuoted quotes (by decide) text cs
  cases hfound : quotes.findSome? fun (quote, multiline) => Document.quoted quote multiline cs with
  | none =>
    rw [hfound] at hquoted
    exact Reads.bind hquoted (reads_unquoted cs)
  | some r =>
    rw [hfound] at hquoted
    exact Reads.bind hquoted (reads_pure r.1)

/-! ## Assignments -/

/-- A mark is read as in the grammar. -/
theorem reads_marker (cs : List Char) :
    Reads (marker text) cs (Document.marker cs).1 (Document.marker cs).2 := by
  rw [marker]
  unfold Document.marker
  split
  · exact (reads_eat_append ['^'] _).bind (reads_pure _)
  · refine (reads_eat_of_not rfl).bind ?_
    exact (reads_eat_append ['!'] _).bind (reads_pure _)
  · refine (reads_eat_of_not rfl).bind ((reads_eat_of_not rfl).bind ?_)
    exact (reads_eat_append ['~'] _).bind (reads_pure _)
  · rename_i hmandatory hfinal htemporary
    refine (reads_eat_of_ne hmandatory).bind ((reads_eat_of_ne hfinal).bind ?_)
    exact (reads_eat_of_ne htemporary).bind (reads_pure none)

/-- An operator is found as in the grammar. -/
theorem finds_assignOp (text cs : List Char) :
    Finds (assignOp text) cs (Document.assignOp cs) := by
  rw [assignOp]
  unfold Document.assignOp
  split
  · exact (reads_eat_append [':', '='] _).bind_lift (finds_pure _)
  · refine (reads_eat_of_not rfl).bind_lift ?_
    exact (reads_eat_append ['='] _).bind_lift (finds_pure _)
  · rename_i himmediate hdeferred
    refine (reads_eat_of_ne himmediate).bind_lift ?_
    exact (reads_eat_of_ne hdeferred).bind_lift finds_failure

/-- An assignment is found as in the grammar. -/
theorem finds_assign (mode : Mode) (cs : List Char) :
    Finds (assign mode text) cs (Document.assign mode cs) := by
  rw [assign, Document.assign]
  refine (reads_marker cs).bind_lift ?_
  have hname := finds_name mode text (Document.marker cs).2
  split
  · rename_i hword
    rw [hword] at hname
    exact hname.bind_none _
  · rename_i key left hword
    rw [hword] at hname
    refine hname.bind ((reads_eatSpaces left).bind_lift ?_)
    by_cases hspaced : mode = .schema ∧ (!startsWithSpace left) = true
    · rw [if_pos hspaced]
      exact finds_guard_bind_none (not_not_intro hspaced)
    · rw [if_neg hspaced]
      refine finds_guard_bind hspaced ?_
      have hop := finds_assignOp text (skipSpaces left)
      split
      · rename_i hnone
        rw [hnone] at hop
        exact hop.bind_none _
      · rename_i op behind hsome
        rw [hsome] at hop
        exact hop.bind ((reads_value behind).bind_lift (finds_pure _))

/-! ## Items -/

/-- An item is found as in the grammar, and otherwise the cursor comes back. -/
theorem tries_item (mode : Mode) (text cs : List Char) :
    Tries (item mode text) cs (Document.item mode cs) :=
  (finds_header mode cs).attempt.orElse
    ((finds_command cs).attempt.orElse (finds_assign mode cs).attempt)

/-- The blank and the comment behind an item are skipped. -/
theorem reads_skipTail (cs : List Char) :
    Reads (skipTail text) cs () (Document.skipTail cs) := by
  rw [skipTail, Document.skipTail, startsComment]
  refine (reads_eatSpaces cs).bind ((reads_startsWith '#').bind ?_)
  split
  · exact reads_eatLine text (skipSpaces cs)
  · exact reads_pure ()

/-- The answer for what comes next, by the places at which it stands. -/
def outcome (text : List Char) : Next → Except Nat (Option PlacedItem)
  | .finished => .ok none
  | .item start item _ => .ok (some ⟨startOf text start, item⟩)
  | .malformed place => .error (startOf text place)

/-- What is left after it. -/
def left : Next → List Char
  | .finished => []
  | .item _ _ rest => rest
  | .malformed place => place

/-- In front of something that is not blank, an item or a fault is read. -/
theorem reads_itemOnLine (mode : Mode) (text : List Char) (h : skipBlank false cs = as)
    (hne : as ≠ []) :
    Reads (itemOnLine mode text) as
      (outcome text (Document.nextItem mode cs)) (left (Document.nextItem mode cs)) := by
  have hitem := tries_item mode text as
  rw [itemOnLine, Document.nextItem, h]
  split
  · exact absurd rfl hne
  refine reads_get_bind fun _ => ?_
  split
  · rename_i hnone
    rw [hnone] at hitem
    exact Reads.bind hitem (reads_pure _)
  · rename_i item rest hsome
    rw [hsome] at hitem
    refine Reads.bind hitem ((reads_skipTail rest).bind (reads_lineEnds.bind ?_))
    split
    · exact reads_pure _
    · exact reads_get_bind fun _ => reads_pure _

/-- A comment is skipped up to the end of its line. -/
theorem skipBlank_comment (cs : List Char) :
    skipBlank true cs = skipBlank false (skipLine cs) := by
  induction cs with
  | nil => rfl
  | cons c cs ih =>
    rw [skipBlank, skipLine]
    by_cases hc : c = '\n'
    · rw [if_pos hc, List.dropWhile_cons_of_neg (by simpa using hc), skipBlank, if_pos (.inl hc)]
    · rw [if_neg hc, List.dropWhile_cons_of_pos (by simpa using hc), ih, skipLine]

section lineNext

variable {mode : Mode} {body : List Char}

/-- At the end of the text there is no item. -/
theorem reads_lineNext_nil (h : skipSpaces cs = []) :
    Reads (lineNext mode text) cs (.inr (.ok none)) [] := by
  refine (h ▸ reads_eatSpaces cs).bind (reads_rest.bind ?_)
  exact reads_pure _

/-- A blank line is skipped. -/
theorem reads_lineNext_lineFeed (h : skipSpaces cs = '\n' :: body) :
    Reads (lineNext mode text) cs (.inl ()) body := by
  refine (h ▸ reads_eatSpaces cs).bind (reads_rest.bind ?_)
  exact reads_moveBy_char.bind (reads_pure _)

/-- A line with a comment only is skipped. -/
theorem reads_lineNext_comment (h : skipSpaces cs = '#' :: body) :
    Reads (lineNext mode text) cs (.inl ()) (skipLine body) := by
  refine (h ▸ reads_eatSpaces cs).bind (reads_rest.bind ?_)
  exact (reads_eatLine text ('#' :: body)).bind (reads_pure _)

/-- Any other line has an item, or a fault. -/
theorem reads_lineNext_item {answer : Except Nat (Option PlacedItem)}
    (h : skipSpaces cs = c :: body) (hline : c ≠ '\n') (hcomment : c ≠ '#')
    (hitem : Reads (itemOnLine mode text) (c :: body) answer cs') :
    Reads (lineNext mode text) cs (.inr answer) cs' := by
  refine (h ▸ reads_eatSpaces cs).bind (reads_rest.bind ?_)
  show Reads (if c = '\n' then _ else _) _ _ _
  rw [if_neg hline, if_neg hcomment]
  exact hitem.bind (reads_pure _)

end lineNext

/-- The next item of a text is found behind any blank lines and comments. -/
theorem loops_lineNext (mode : Mode) (text cs : List Char) :
    Loops (fun _ => lineNext mode text) () cs
      (outcome text (Document.nextItem mode cs)) (left (Document.nextItem mode cs)) := by
  induction hlength : cs.length using Nat.strongRecOn generalizing cs with
  | ind n ih =>
    -- white space is skipped in either case, so that the line shows what it starts with
    have hskip := skipBlank_skipSpaces_append cs []
    rw [List.append_nil, List.append_nil] at hskip
    have hle := (skipSpaces_suffix cs).length_le
    have hstop := List.head?_dropWhile_not isSpace cs
    rw [← skipSpaces] at hstop
    rw [nextItem_congr hskip]
    cases hspaces : skipSpaces cs with
    | nil => exact .done (reads_lineNext_nil hspaces)
    | cons c body =>
      rw [hspaces] at hstop hle
      rw [List.length_cons] at hle
      have hspace : isSpace c ≠ true := by simpa using hstop
      by_cases hline : c = '\n'
      · subst hline
        have hbody : skipBlank false ('\n' :: body) = skipBlank false body := by
          rw [skipBlank, if_pos (.inl rfl)]
        rw [nextItem_congr hbody]
        exact .again (reads_lineNext_lineFeed hspaces) (by omega)
          (ih body.length (by omega) body rfl)
      by_cases hcomment : c = '#'
      · subst hcomment
        have hbody : skipBlank false ('#' :: body) = skipBlank false (skipLine body) := by
          rw [skipBlank, if_neg (not_or_intro hline hspace), if_pos rfl, skipBlank_comment]
        have hshort := (skipLine_suffix body).length_le
        rw [nextItem_congr hbody]
        exact .again (reads_lineNext_comment hspaces) (by omega)
          (ih (skipLine body).length (by omega) (skipLine body) rfl)
      · have hbody : skipBlank false (c :: body) = c :: body := by
          rw [skipBlank, if_neg (not_or_intro hline hspace), if_neg hcomment]
        have hitem := reads_itemOnLine mode text hbody (List.cons_ne_nil c body)
        exact .done (reads_lineNext_item hspaces hline hcomment hitem)

/-- The next item is read as in the grammar, behind the blank lines and comments before it. -/
theorem reads_nextItem (mode : Mode) (text cs : List Char) :
    Reads (nextItem mode text) cs
      (outcome text (Document.nextItem mode cs)) (left (Document.nextItem mode cs)) :=
  (loops_lineNext mode text cs).reads

end Document.Cursor

end LayeredConfig
