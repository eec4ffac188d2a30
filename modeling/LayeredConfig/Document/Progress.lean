import LayeredConfig.Document.Grammar

/-!
# Reading makes progress

What a reader leaves is a suffix of what it was given, and a name, a header, a command or an
assignment takes at least one character. `nextItem_progress` states both for a whole item, so that
reading items one after the other comes to an end.
-/

namespace LayeredConfig.Document

open Text

/-- `rest` is what is left of `cs` after at least one character was read. -/
def Left (cs rest : List Char) : Prop :=
  rest <:+ cs ∧ rest.length < cs.length

namespace Left

/-- Reading more before, or after, leaves a rest too. -/
theorem mono {cs cs' rest rest' : List Char} (h : Left cs rest) (hcs : cs <:+ cs')
    (hrest : rest' <:+ rest) : Left cs' rest' :=
  ⟨(hrest.trans h.1).trans hcs,
    Nat.lt_of_le_of_lt hrest.length_le (Nat.lt_of_lt_of_le h.2 hcs.length_le)⟩

/-- Dropping the first character leaves the others. -/
theorem cons (c : Char) (cs : List Char) : Left (c :: cs) cs :=
  ⟨List.suffix_cons _ _, by simp⟩

end Left

/-- Skipping white space leaves an end of the text. -/
theorem skipSpaces_suffix (cs : List Char) : skipSpaces cs <:+ cs :=
  List.dropWhile_suffix _

/-- Skipping a line leaves an end of the text. -/
theorem skipLine_suffix (cs : List Char) : skipLine cs <:+ cs :=
  List.dropWhile_suffix _

/-- Skipping what may stand behind an item leaves an end of the text. -/
theorem skipTail_suffix (cs : List Char) : skipTail cs <:+ cs := by
  unfold skipTail
  split
  · exact (skipLine_suffix _).trans (skipSpaces_suffix _)
  · exact skipSpaces_suffix _

/-- Skipping blank lines and comments leaves an end of the text. -/
theorem skipBlank_suffix (inComment : Bool) (cs : List Char) : skipBlank inComment cs <:+ cs := by
  induction cs generalizing inComment with
  | nil => cases inComment <;> exact List.suffix_rfl
  | cons c cs ih =>
    cases inComment <;> simp only [skipBlank] <;> repeat' split
    all_goals first
      | exact List.suffix_rfl
      | exact (ih _).trans (List.suffix_cons _ _)

/-- A word takes characters. -/
theorem word_left {mode : Mode} {cs name rest : List Char}
    (h : word mode cs = some (name, rest)) : Left cs rest := by
  unfold word at h
  split at h
  · cases h
  · next hne =>
    cases h
    refine ⟨List.dropWhile_suffix _, ?_⟩
    have hsplit := congrArg List.length
      (List.takeWhile_append_dropWhile (p := isNameChar mode) (l := cs))
    have hpos := List.length_pos_iff.2 hne
    simp only [List.length_append] at hsplit
    omega

/-- The end of a header takes characters from the start of the text, if any. -/
theorem headerEnd_suffix {mode : Mode} {opening : Nat} {name cs rest : List Char} {i : Item}
    (h : headerEnd mode opening name cs = some (i, rest)) : rest <:+ cs := by
  simp only [headerEnd] at h
  split at h
  · cases h
    exact (List.dropWhile_suffix _).trans (skipSpaces_suffix _)
  · split at h
    · cases h
      exact skipSpaces_suffix _
    · cases h

/-- A header takes characters. -/
theorem header_left {mode : Mode} {cs rest : List Char} {i : Item}
    (h : header mode cs = some (i, rest)) : Left cs rest := by
  simp only [header] at h
  split at h
  · cases h
  · split at h
    · cases h
    · next hw =>
      exact (word_left hw).mono ((skipSpaces_suffix _).trans (List.dropWhile_suffix _))
        (headerEnd_suffix h)

/-- A command takes characters. -/
theorem command_left {cs rest : List Char} {i : Item} (h : command cs = some (i, rest)) :
    Left cs rest := by
  unfold command at h
  split at h
  · next cs =>
    split at h
    · cases h
    · next hw =>
      split at h
      · next body hbody =>
        split at h
        · next rest' hrest =>
          cases h
          have hparen : rest <:+ body :=
            (List.suffix_cons _ _).trans (hrest ▸ List.dropWhile_suffix _)
          have hopen : body <:+ _ :=
            (List.suffix_cons _ _).trans (hbody ▸ skipSpaces_suffix _)
          exact (word_left hw).mono (List.suffix_cons _ _) (hparen.trans hopen)
        · cases h
      · cases h
  · cases h

/-- What stands between marks is taken from the start of the text. -/
theorem quotedBody_suffix {quote : List Char} {multiline : Bool} {cs : List Char}
    {r : List Char × List Char} (h : quotedBody quote multiline cs = some r) : r.2 <:+ cs := by
  fun_induction quotedBody quote multiline cs generalizing r with
  | case1 => cases h
  | case2 => cases h; exact List.drop_suffix _ _
  | case3 => cases h
  | case4 e cs _ ih =>
    obtain ⟨s, hs, rfl⟩ := Option.map_eq_some_iff.1 h
    exact (ih hs).trans ((List.suffix_cons _ _).trans (List.suffix_cons _ _))
  | case5 => cases h
  | case6 c cs _ _ _ ih =>
    obtain ⟨s, hs, rfl⟩ := Option.map_eq_some_iff.1 h
    exact (ih hs).trans (List.suffix_cons _ _)

/-- A quoted value is taken from the start of the text. -/
theorem quoted_suffix {quote : List Char} {multiline : Bool} {cs : List Char}
    {r : List Char × List Char} (h : quoted quote multiline cs = some r) : r.2 <:+ cs := by
  unfold quoted at h
  split at h
  · exact (quotedBody_suffix (Option.filter_eq_some_iff.1 h).1).trans (List.drop_suffix _ _)
  · cases h

/-- An unquoted value is taken from the start of the text. -/
theorem unquoted_suffix (cs : List Char) : (unquoted cs).2 <:+ cs := by
  fun_induction unquoted cs with
  | case1 => exact List.suffix_rfl
  | case2 => exact List.suffix_rfl
  | case3 c cs _ ih => exact ih.trans (List.suffix_cons _ _)

/-- A value is taken from the start of the text. -/
theorem value_suffix (cs : List Char) : (value cs).2 <:+ cs := by
  refine List.IsSuffix.trans ?_ (skipSpaces_suffix cs)
  unfold value valueAfterSpaces
  split
  · exact skipLine_suffix _
  · split
    · exact List.suffix_rfl
    · split
      · next h =>
        obtain ⟨_, _, hq⟩ := List.exists_of_findSome?_eq_some h
        exact quoted_suffix hq
      · exact unquoted_suffix _

/-- A mark is taken from the start of the text, if there is one. -/
theorem marker_suffix (cs : List Char) : (marker cs).2 <:+ cs := by
  unfold marker
  split
  all_goals first | exact List.suffix_cons _ _ | exact List.suffix_rfl

/-- An operator is taken from the start of the text. -/
theorem assignOp_suffix {cs rest : List Char} {op : AssignOp}
    (h : assignOp cs = some (op, rest)) : rest <:+ cs := by
  unfold assignOp at h
  split at h
  · cases h
    exact (List.suffix_cons _ _).trans (List.suffix_cons _ _)
  · cases h
    exact List.suffix_cons _ _
  · cases h

/-- An assignment takes characters. -/
theorem assign_left {mode : Mode} {cs rest : List Char} {i : Item}
    (h : assign mode cs = some (i, rest)) : Left cs rest := by
  unfold assign at h
  split at h
  · cases h
  · next hw =>
    split at h
    · cases h
    · split at h
      · cases h
      · next hop =>
        cases h
        exact (word_left hw).mono (marker_suffix _)
          ((value_suffix _).trans ((assignOp_suffix hop).trans (skipSpaces_suffix _)))

/-- Every item takes characters. -/
theorem item_left {mode : Mode} {cs rest : List Char} {i : Item}
    (h : item mode cs = some (i, rest)) : Left cs rest := by
  simp only [item, Option.or_eq_some_iff] at h
  rcases h with h | ⟨_, h | ⟨_, h⟩⟩
  · exact header_left h
  · exact command_left h
  · exact assign_left h

/-- An item starts within the text that is left, and takes at least one character of it. -/
theorem nextItem_progress {mode : Mode} {cs start rest : List Char} {i : Item}
    (h : nextItem mode cs = .item start i rest) : start <:+ cs ∧ Left start rest := by
  unfold nextItem at h
  split at h
  · cases h
  · split at h
    · cases h
    · next hi =>
      split at h
      · cases h
        exact ⟨skipBlank_suffix _ _, (item_left hi).mono List.suffix_rfl (skipTail_suffix _)⟩
      · cases h

/-- What is left after an item is shorter than what was left before it. -/
theorem nextItem_length_lt {mode : Mode} {cs start rest : List Char} {i : Item}
    (h : nextItem mode cs = .item start i rest) : rest.length < cs.length :=
  have ⟨hstart, hrest⟩ := nextItem_progress h
  Nat.lt_of_lt_of_le hrest.2 hstart.length_le

end LayeredConfig.Document
