import LayeredConfig.Proofs.Text.Prefixes
import LayeredConfig.Proofs.Text.Ranges
import LayeredConfig.Rule.Token

/-!
# Tokens as they are written

A token of a rule has a spelling: integers are written in decimal, names and symbols as they are,
and strings in quotes of either kind, with a backslash in front of backslashes and of the quotes.
Tokens with single spaces between them are read back, each at the byte at which it was written
(`ofText_text`).

A spelling is read as its token whatever follows, provided that the next character cannot be a part
of it (`exists_readToken_chars`). A space never can: it belongs to no name, to no integer and to no
operator, and behind it the names `r` and `R` make no string raw.
-/

namespace LayeredConfig.RuleToken

open Text

/-! ## Spellings -/

/-- A character of a string as it is written between quotes. -/
def escapeChar (quote c : Char) : List Char :=
  if c = '\\' ∨ c = quote then ['\\', c] else [c]

/-- A token as it is written. -/
structure Spelling where
  token : RuleToken
  /-- Whether a string stands in double quotes. -/
  double : Bool
deriving DecidableEq, Repr

namespace Spelling

/-- The quotes of a string. -/
def quote (s : Spelling) : Char :=
  if s.double then '"' else '\''

/-- The characters of a spelling. -/
def chars (s : Spelling) : List Char :=
  match s.token with
  | .str value => s.quote :: (value.toList.flatMap (escapeChar s.quote) ++ [s.quote])
  | .int value => Nat.toDigits 10 value
  | .name word => word.toList
  | .compare op => op.render.toList
  | .openParen => ['(']
  | .closeParen => [')']
  | .openBracket => ['[']
  | .closeBracket => [']']
  | .comma => [',']

end Spelling

/-- A word that a name can be: a character that can start one, and then characters of names. -/
def isName (word : String) : Bool :=
  word.toList.head?.any isNameStart && word.toList.tail.all isNameChar

/-- The tokens that have a spelling. The operators `in` and `not in` are written as names. -/
def isWritable : RuleToken → Bool
  | .int value => value < 0x8000000000000000
  | .name word => isName word
  | .compare op => op ≠ .isIn ∧ op ≠ .notIn
  | _ => true

/-- The text of some tokens, with single spaces between them. -/
def text (spellings : List Spelling) : List Char :=
  [' '].intercalate (spellings.map Spelling.chars)

/-- Some tokens, each with the byte at which it is written: the first one at `offset`, and each of
the others one space behind the one before it. -/
def placed (offset : Nat) : List Spelling → List Placed
  | [] => []
  | s :: spellings => (s.token, offset) :: placed (offset + byteLength s.chars + 1) spellings

/-! ## Classes of characters -/

variable {c : Char} {cs rest : List Char} {s : Spelling}

/-- A digit has one of ten codes. -/
theorem isAsciiDigit_iff : isAsciiDigit c = true ↔ 0x30 ≤ c.toNat ∧ c.toNat ≤ 0x39 := by
  simp only [isAsciiDigit, Bool.and_eq_true, decide_eq_true_eq, Char.le_def]
  exact Iff.rfl

/-- A name does not start with white space. -/
theorem not_isWhitespace_of_isNameStart (h : isNameStart c = true) : isWhitespace c = false := by
  have hapart : Apart alphabeticRanges whitespaceRanges := by decide +kernel
  rw [isNameStart, Bool.or_eq_true] at h
  rcases h with hletter | hline
  · exact hapart.not_inRanges hletter
  · rw [eq_of_beq hline]
    decide

/-- A name does not start with a digit. -/
theorem not_isAsciiDigit_of_isNameStart (h : isNameStart c = true) : isAsciiDigit c = false := by
  have hapart : Apart alphabeticRanges [(0x30, 0x39)] := by decide +kernel
  rw [isNameStart, Bool.or_eq_true] at h
  rcases h with hletter | hline
  · apply Bool.eq_false_iff.mpr
    intro hdigit
    obtain ⟨hlow, hhigh⟩ := isAsciiDigit_iff.mp hdigit
    have hnot := hapart.not_inRanges hletter
    simp [inRanges, hlow, hhigh] at hnot
  · rw [eq_of_beq hline]
    decide

/-- A digit is no white space. -/
theorem not_isWhitespace_of_isAsciiDigit (h : isAsciiDigit c = true) : isWhitespace c = false := by
  have hapart : Apart [(0x30, 0x39)] whitespaceRanges := by decide
  obtain ⟨hlow, hhigh⟩ := isAsciiDigit_iff.mp h
  apply hapart.not_inRanges
  simp [inRanges, hlow, hhigh]

/-- What stands behind a token starts with a space, if with anything. -/
def AtSpace (rest : List Char) : Prop :=
  ∀ c ∈ rest.head?, c = ' '

/-- What ends at a space does not go on with anything but a space. -/
theorem AtSpace.head {p : Char → Bool} (h : AtSpace rest) (hp : p ' ' = false) :
    ∀ c ∈ rest.head?, p c = false := by
  intro c hc
  rw [h c hc, hp]

/-! ## Strings -/

/-- An escaped character stands for itself, and does not end the string. -/
theorem stringBody?_escapeChar {quote : Char} (hquote : quote = '"' ∨ quote = '\'') (c : Char)
    (cs : List Char) :
    stringBody? quote false (escapeChar quote c ++ cs) =
      (stringBody? quote false cs).map fun r => (c :: r.1, r.2) := by
  have hbackslash : '\\' ≠ quote := by
    rcases hquote with rfl | rfl <;> decide
  rw [escapeChar]
  split
  · rename_i hc
    have hescaped : escaped false c = [c] := by
      rcases hc with rfl | rfl
      · rfl
      · rcases hquote with rfl | rfl <;> rfl
    rw [List.cons_append, List.cons_append, List.nil_append, stringBody?.eq_def]
    simp only [if_neg hbackslash, if_true, hescaped, List.singleton_append]
  · rename_i hc
    rw [not_or] at hc
    rw [List.singleton_append, stringBody?.eq_def]
    simp only [if_neg hc.1, if_neg hc.2]

/-- An escaped text is read back up to its closing quote. -/
theorem stringBody?_escape {quote : Char} (hquote : quote = '"' ∨ quote = '\'')
    (cs rest : List Char) :
    stringBody? quote false (cs.flatMap (escapeChar quote) ++ quote :: rest) = some (cs, rest) := by
  induction cs with
  | nil =>
    rw [List.flatMap_nil, List.nil_append, stringBody?.eq_def]
    exact if_pos rfl
  | cons c cs ih =>
    rw [List.flatMap_cons, List.append_assoc, stringBody?_escapeChar hquote, ih, Option.map_some]

/-- There are two kinds of quotes. -/
theorem Spelling.quote_eq (s : Spelling) : s.quote = '"' ∨ s.quote = '\'' := by
  unfold quote
  split
  · exact .inl rfl
  · exact .inr rfl

/-- A string is read back in either kind of quotes. -/
theorem readToken_quote {quote : Char} (hquote : quote = '"' ∨ quote = '\'') (value : String)
    (rest : List Char) :
    readToken quote (value.toList.flatMap (escapeChar quote) ++ quote :: rest) =
      .ok (.str value, rest) := by
  have hread : readToken quote = readString quote false := by
    rcases hquote with rfl | rfl <;> rfl
  simp only [hread, readString, stringBody?_escape hquote, String.ofList_toList]

/-! ## Integers -/

/-- A number is read back from its digits. -/
theorem decimalNumber_toDigits (n : Nat) : decimalNumber (Nat.toDigits 10 n) = n := by
  have hfold : decimalNumber (Nat.toDigits 10 n) = Nat.ofDigitChars 10 (Nat.toDigits 10 n) 0 :=
    Nat.ofDigitChars_eq_foldl.symm
  rw [hfold, Nat.ofDigitChars_ten_toDigits]

/-- The digits of a number are digits. -/
theorem isAsciiDigit_of_mem_toDigits {n : Nat} (h : c ∈ Nat.toDigits 10 n) :
    isAsciiDigit c = true := by
  have hdigit := Nat.isDigit_of_mem_toDigits (by decide) (by decide) h
  apply isAsciiDigit_iff.mpr
  simpa [Char.isDigit, UInt32.le_iff_toNat_le] using hdigit

/-- An integer is read back from its digits, up to the largest one. -/
theorem readInt_toDigits {n : Nat} (hn : n < 0x8000000000000000) (h : AtSpace rest) :
    readInt (Nat.toDigits 10 n ++ rest) = .ok (.int n, rest) := by
  have hdigits : ∀ c ∈ Nat.toDigits 10 n, isAsciiDigit c = true :=
    fun c hc => isAsciiDigit_of_mem_toDigits hc
  have hrest := h.head (p := isAsciiDigit) (by decide)
  simp only [readInt, takeWhile_append_of_stop hdigits hrest,
    dropWhile_append_of_stop hdigits hrest, decimalNumber_toDigits, if_pos hn]

/-! ## Names -/

/-- What can start a name can go on in it. -/
theorem isNameChar_of_isNameStart (h : isNameStart c = true) : isNameChar c = true := by
  rw [isNameStart, Bool.or_eq_true] at h
  rw [isNameChar, isAlphanumeric, Bool.or_eq_true, Bool.or_eq_true]
  exact h.imp_left .inl

/-- A name starts with a character that can start one, and goes on with characters of names. -/
theorem exists_cons_of_isName {word : String} (h : isName word = true) :
    ∃ c cs, word.toList = c :: cs ∧ isNameStart c = true ∧ ∀ c ∈ cs, isNameChar c = true := by
  rw [isName, Bool.and_eq_true] at h
  cases hword : word.toList with
  | nil => simp [hword] at h
  | cons c cs => exact ⟨c, cs, rfl, by simpa [hword] using h⟩

/-- A name is read back. -/
theorem readName_chars {word : String} (hword : ∀ c ∈ word.toList, isNameChar c = true)
    (h : AtSpace rest) : readName (word.toList ++ rest) = .ok (.name word, rest) := by
  have hrest := h.head (p := isNameChar) (by decide +kernel)
  simp only [readName, takeWhile_append_of_stop hword hrest,
    dropWhile_append_of_stop hword hrest, String.ofList_toList]
  -- a space stands between the names `r` and `R` and a string behind them
  split
  · split
    · exact absurd (h _ rfl) (by decide)
    · exact absurd (h _ rfl) (by decide)
    · rfl
  · rfl

/-! ## Tokens -/

/-- An integer starts with a digit. -/
theorem readToken_of_isAsciiDigit (h : isAsciiDigit c = true) (cs : List Char) :
    readToken c cs = readInt (c :: cs) := by
  have hne (c' : Char) (hc' : isAsciiDigit c' = false) : c ≠ c' := by
    rintro rfl
    rw [h] at hc'
    exact absurd hc' (by decide)
  unfold readToken
  split
  all_goals first
    | exact absurd rfl (hne _ (by decide))
    | exact if_pos h

/-- A name starts with a character that can start one. -/
theorem readToken_of_isNameStart (h : isNameStart c = true) (cs : List Char) :
    readToken c cs = readName (c :: cs) := by
  have hne (c' : Char) (hc' : isNameStart c' = false) : c ≠ c' := by
    rintro rfl
    rw [h] at hc'
    exact absurd hc' (by decide)
  unfold readToken
  split
  all_goals first
    | exact absurd rfl (hne _ (by decide +kernel))
    | exact (if_neg (by simp [not_isAsciiDigit_of_isNameStart h])).trans (if_pos h)

/-- An operator is read up to the space behind it. -/
theorem readOp_render {op : CompareOp} (hop : op ≠ .isIn ∧ op ≠ .notIn) (h : AtSpace rest) :
    ∃ c cs, op.render.toList ++ rest = c :: cs ∧ isWhitespace c = false ∧
      readToken c cs = .ok (.compare op, rest) := by
  -- a space follows, so that the operator is not taken for a longer one
  have hends : (rest.head? == some '=') = false := by
    apply beq_false_of_ne
    intro heq
    exact absurd (h '=' heq) (by decide)
  cases op with
  | eq => exact ⟨'=', '=' :: rest, rfl, by decide, rfl⟩
  | ne => exact ⟨'!', '=' :: rest, rfl, by decide, rfl⟩
  | lt =>
    refine ⟨'<', rest, rfl, by decide, ?_⟩
    simp [readToken, readOp, hends, compareOp?]
  | le => exact ⟨'<', '=' :: rest, rfl, by decide, rfl⟩
  | gt =>
    refine ⟨'>', rest, rfl, by decide, ?_⟩
    simp [readToken, readOp, hends, compareOp?]
  | ge => exact ⟨'>', '=' :: rest, rfl, by decide, rfl⟩
  | isIn => exact absurd rfl hop.1
  | notIn => exact absurd rfl hop.2

/-- A spelling is read as its token, up to the space behind it. -/
theorem exists_readToken_chars (hs : s.token.isWritable = true) (h : AtSpace rest) :
    ∃ c cs, s.chars ++ rest = c :: cs ∧ isWhitespace c = false ∧
      readToken c cs = .ok (s.token, rest) := by
  obtain ⟨token, double⟩ := s
  cases token with
  | str value =>
    have hquote := Spelling.quote_eq ⟨.str value, double⟩
    refine ⟨_, _, ?_, ?_, readToken_quote hquote value rest⟩
    · simp [Spelling.chars]
    · rcases hquote with hdouble | hsingle
      · rw [hdouble]
        decide
      · rw [hsingle]
        decide
  | int value =>
    obtain ⟨c, cs, hdigits⟩ :=
      List.exists_cons_of_ne_nil (Nat.toDigits_ne_nil (n := value) (b := 10))
    have hc : isAsciiDigit c = true := isAsciiDigit_of_mem_toDigits (by rw [hdigits]; simp)
    have hread := readInt_toDigits (of_decide_eq_true hs) h
    rw [hdigits] at hread
    refine ⟨c, cs ++ rest, ?_, not_isWhitespace_of_isAsciiDigit hc, ?_⟩
    · simp [Spelling.chars, hdigits]
    · rw [readToken_of_isAsciiDigit hc]
      exact hread
  | name word =>
    obtain ⟨c, cs, hword, hc, hcs⟩ := exists_cons_of_isName hs
    have hread : readName (c :: (cs ++ rest)) = .ok (.name word, rest) := by
      rw [← List.cons_append, ← hword]
      apply readName_chars _ h
      rw [hword]
      exact List.forall_mem_cons.mpr ⟨isNameChar_of_isNameStart hc, hcs⟩
    refine ⟨c, cs ++ rest, ?_, not_isWhitespace_of_isNameStart hc, ?_⟩
    · simp [Spelling.chars, hword]
    · rw [readToken_of_isNameStart hc]
      exact hread
  | compare op => exact readOp_render (of_decide_eq_true hs) h
  | openParen => exact ⟨'(', rest, rfl, by decide, rfl⟩
  | closeParen => exact ⟨')', rest, rfl, by decide, rfl⟩
  | openBracket => exact ⟨'[', rest, rfl, by decide, rfl⟩
  | closeBracket => exact ⟨']', rest, rfl, by decide, rfl⟩
  | comma => exact ⟨',', rest, rfl, by decide, rfl⟩

/-! ## Texts -/

/-- White space in front of a token is passed over. -/
theorem readTokens_space (size fuel : Nat) (cs : List Char) :
    readTokens size fuel (' ' :: cs) = readTokens size fuel cs := by
  cases fuel with
  | zero => rfl
  | succ fuel => rfl

/-- There are no tokens in an empty text. -/
theorem readTokens_nil (size fuel : Nat) : readTokens size fuel [] = .ok [] := by
  cases fuel with
  | zero => rfl
  | succ fuel => rfl

/-- A token is read with the byte at which its spelling starts, and then what stands behind it. -/
theorem readTokens_chars (hs : s.token.isWritable = true) (h : AtSpace rest) (offset fuel : Nat) :
    readTokens (offset + byteLength (s.chars ++ rest)) (fuel + 1) (s.chars ++ rest) =
      (readTokens (offset + byteLength (s.chars ++ rest)) fuel rest).map
        ((s.token, offset) :: ·) := by
  obtain ⟨c, cs, hchars, hblank, hread⟩ := exists_readToken_chars hs h
  have hstart : (c :: cs).dropWhile isWhitespace = c :: cs :=
    List.dropWhile_cons_of_neg (by simp [hblank])
  simp only [hchars, readTokens, hstart, hread, Nat.add_sub_cancel_right]

/-- Some tokens are read back, each with the byte at which it is written. -/
theorem readTokens_text {spellings : List Spelling}
    (h : ∀ s ∈ spellings, s.token.isWritable = true) (offset : Nat) {fuel : Nat}
    (hfuel : (text spellings).length < fuel) :
    readTokens (offset + byteLength (text spellings)) fuel (text spellings) =
      .ok (placed offset spellings) := by
  induction spellings generalizing offset fuel with
  | nil => exact readTokens_nil _ fuel
  | cons s spellings ih =>
    obtain ⟨hs, hspellings⟩ := List.forall_mem_cons.mp h
    obtain ⟨fuel, rfl⟩ : ∃ n, fuel = n + 1 := ⟨fuel - 1, by omega⟩
    cases spellings with
    | nil =>
      have htext : text [s] = s.chars ++ [] := by simp [text]
      rw [htext, readTokens_chars hs (fun c hc => by cases hc), readTokens_nil]
      rfl
    | cons next spellings =>
      have htext : text (s :: next :: spellings) = s.chars ++ ' ' :: text (next :: spellings) := by
        simp [text, List.intercalate_cons_cons]
      have hspace : AtSpace (' ' :: text (next :: spellings)) := by
        rintro _ ⟨⟩
        rfl
      -- the next token is a space behind this one
      have hsize : offset + byteLength (s.chars ++ ' ' :: text (next :: spellings)) =
          offset + byteLength s.chars + 1 + byteLength (text (next :: spellings)) := by
        rw [byteLength_append, byteLength_cons]
        have hbyte : ' '.utf8Size = 1 := rfl
        omega
      rw [htext, List.length_append, List.length_cons] at hfuel
      rw [htext, readTokens_chars hs hspace, readTokens_space, hsize,
        ih hspellings (offset + byteLength s.chars + 1) (by omega)]
      rfl

/-- Tokens written with single spaces between them are read back, each at the byte at which it was
written. -/
theorem ofText_text (spellings : List Spelling) (h : ∀ s ∈ spellings, s.token.isWritable = true) :
    ofText (String.ofList (text spellings)) = .ok (placed 0 spellings) := by
  have hread := readTokens_text h 0 (Nat.lt_succ_self (text spellings).length)
  rw [Nat.zero_add] at hread
  rw [ofText, String.toList_ofList, String.length_ofList]
  exact hread

/-- A name `r` in front of a string, which stays what it is, quotes and backslashes in a string, the
greatest integer, and characters of more than one byte. -/
def quotingSpellings : List Spelling :=
  [⟨.name "r", false⟩, ⟨.str "a'\\\"é", false⟩, ⟨.compare .le, false⟩, ⟨.str "\"\\", true⟩,
    ⟨.int 9223372036854775807, false⟩, ⟨.closeBracket, false⟩, ⟨.name "_é1", false⟩]

/-- Tokens in both kinds of quotes, with escapes, characters of two bytes and the largest
integer. -/
theorem ofText_text_quoting :
    (∀ s ∈ quotingSpellings, s.token.isWritable = true) ∧
      text quotingSpellings =
        "r 'a\\'\\\\\"é' <= \"\\\"\\\\\" 9223372036854775807 ] _é1".toList ∧
      ofText (String.ofList (text quotingSpellings)) =
        .ok [(.name "r", 0), (.str "a'\\\"é", 2), (.compare .le, 13), (.str "\"\\", 16),
          (.int 9223372036854775807, 23), (.closeBracket, 43), (.name "_é1", 45)] := by
  have hwritable : ∀ s ∈ quotingSpellings, s.token.isWritable = true := by decide +kernel
  exact ⟨hwritable, by decide +kernel, ofText_text quotingSpellings hwritable⟩

end LayeredConfig.RuleToken
