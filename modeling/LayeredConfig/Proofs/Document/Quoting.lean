import LayeredConfig.Document.Grammar

/-!
# Quoted values

A text may be put in any of four kinds of quotes, and reads back from each. Two things could go
wrong. The value could end too early, or not at its end: `quotedBody_encode` says that the marks
that end it are the first ones without a backslash. And since the kinds of quotes are tried in a
fixed order, another kind could fit before the right one does: `findSome?_quotes_enclose` says that
none does.

The readers look at what follows the part that they read, so each lemma has the rest of the text in
its statement, with what is needed of its first character.
-/

namespace LayeredConfig.Document

open Text

/-! ## Quotes -/

section quotedBody

variable {quote cs : List Char} {multiline : Bool} {c e : Char}

/-- The closing marks end a value. -/
theorem quotedBody_of_quote (h : quote.isPrefixOf (c :: cs) = true) :
    quotedBody quote multiline (c :: cs) = some ([], (c :: cs).drop quote.length) := by
  unfold quotedBody
  rw [if_pos h]

/-- An escape is read as what it stands for. -/
theorem quotedBody_escape (h : quote.isPrefixOf ('\\' :: e :: cs) = false) :
    quotedBody quote multiline ('\\' :: e :: cs) =
      (quotedBody quote multiline cs).map fun r => (escaped e :: r.1, r.2) := by
  rw [quotedBody.eq_def]
  simp only [h, Bool.false_eq_true, if_false, if_true]

/-- A plain character is read as it is. -/
theorem quotedBody_plain (h : quote.isPrefixOf (c :: cs) = false) (hc : c ≠ '\\')
    (hline : c = '\n' → multiline = true) :
    quotedBody quote multiline (c :: cs) =
      (quotedBody quote multiline cs).map fun r => (c :: r.1, r.2) := by
  have hends : ¬ (c = '\n' ∧ (!multiline) = true) := fun ⟨hlf, hsingle⟩ => by
    rw [hline hlf] at hsingle
    cases hsingle
  rw [quotedBody.eq_def]
  simp only [h, hc, hends, Bool.false_eq_true, if_false]

end quotedBody

/-- One of the four ways to quote a value. -/
structure Quoting where
  /-- Double quotation marks instead of single ones. -/
  double : Bool
  /-- Three marks on each side, between which a value may span lines. -/
  triple : Bool
deriving DecidableEq, Repr

namespace Quoting

variable {q q' : Quoting} {c : Char} {cs rest : List Char}

/-- The quotation mark. -/
def mark (q : Quoting) : Char :=
  if q.double then '"' else '\''

/-- What stands on each side of a value. -/
def quote (q : Quoting) : List Char :=
  if q.triple then [q.mark, q.mark, q.mark] else [q.mark]

/-- A character as it is written between quotes. -/
def encodeChar (q : Quoting) (c : Char) : List Char :=
  if c = '\\' ∨ c = q.mark then ['\\', c]
  else if c = '\r' then ['\\', 'r']
  else if c = '\n' ∧ !q.triple then ['\\', 'n']
  else [c]

/-- A text as it is written between quotes. -/
def encode (q : Quoting) (cs : List Char) : List Char :=
  cs.flatMap q.encodeChar

/-- A text in quotes. -/
def enclose (q : Quoting) (cs : List Char) : List Char :=
  q.quote ++ q.encode cs ++ q.quote

/-- There are two marks. -/
theorem mark_eq (q : Quoting) : q.mark = '"' ∨ q.mark = '\'' := by
  unfold mark
  split
  · exact .inl rfl
  · exact .inr rfl

/-- No other character is one. -/
theorem mark_ne (q : Quoting) (h : c ≠ '"' ∧ c ≠ '\'') : q.mark ≠ c := by
  rcases q.mark_eq with hmark | hmark <;> rw [hmark]
  · exact h.1.symm
  · exact h.2.symm

/-- A character is written as it is, or as an escape that stands for it. -/
theorem encodeChar_cases (q : Quoting) (c : Char) :
    (∃ e, q.encodeChar c = ['\\', e] ∧ escaped e = c ∧ e ≠ '\r') ∨
      (q.encodeChar c = [c] ∧ c ≠ q.mark ∧ c ≠ '\\' ∧ c ≠ '\r' ∧ (c = '\n' → q.triple = true)) := by
  unfold encodeChar
  split
  · rename_i h
    refine .inl ⟨c, rfl, ?_⟩
    rcases h with rfl | rfl
    · decide
    · rcases q.mark_eq with hmark | hmark <;> rw [hmark] <;> decide
  · rename_i hplain
    rw [not_or] at hplain
    split
    · rename_i hcr
      exact .inl ⟨'r', rfl, hcr.symm, by decide⟩
    · rename_i hcr
      split
      · rename_i hlf
        exact .inl ⟨'n', rfl, hlf.1.symm, by decide⟩
      · rename_i hlf
        refine .inr ⟨rfl, hplain.2, hplain.1, hcr, fun hc => ?_⟩
        rw [hc] at hlf
        simpa using hlf

/-- A text is encoded character by character. -/
theorem encode_cons (q : Quoting) (c : Char) (cs : List Char) :
    q.encode (c :: cs) = q.encodeChar c ++ q.encode cs :=
  List.flatMap_cons

/-- The quotes start with their mark. -/
theorem quote_eq_cons (q : Quoting) : ∃ marks, q.quote = q.mark :: marks := by
  unfold quote
  split
  · exact ⟨_, rfl⟩
  · exact ⟨_, rfl⟩

/-- What does not start with the mark does not start with the quotes. -/
theorem isPrefixOf_quote_of_ne (h : c ≠ q.mark) : q.quote.isPrefixOf (c :: cs) = false := by
  obtain ⟨marks, hquote⟩ := q.quote_eq_cons
  rw [hquote, List.isPrefixOf_cons_cons, beq_false_of_ne h.symm, Bool.false_and]

/-- The marks that end a value are the first ones that are not escaped. -/
theorem quotedBody_encode (q : Quoting) (cs rest : List Char) :
    quotedBody q.quote q.triple (q.encode cs ++ (q.quote ++ rest)) = some (cs, rest) := by
  induction cs with
  -- the closing marks follow
  | nil =>
    have hprefix : q.quote.isPrefixOf (q.quote ++ rest) = true :=
      List.isPrefixOf_iff_prefix.mpr (List.prefix_append _ _)
    obtain ⟨marks, hquote⟩ := q.quote_eq_cons
    change quotedBody q.quote q.triple (q.quote ++ rest) = _
    rw [hquote, List.cons_append] at hprefix ⊢
    rw [quotedBody_of_quote hprefix, ← List.cons_append, List.drop_left]
  | cons c cs ih =>
    rw [encode_cons, List.append_assoc]
    rcases q.encodeChar_cases c with ⟨e, hc, he, -⟩ | ⟨hc, hmark, hplain, -, hlf⟩
    · -- an escape: the backslash is no mark, and the escaped character is read with it
      have hbackslash : '\\' ≠ q.mark := (q.mark_ne (by decide)).symm
      rw [hc, List.cons_append, List.cons_append, List.nil_append,
        quotedBody_escape (isPrefixOf_quote_of_ne hbackslash), ih, Option.map_some, he]
    · rw [hc, List.cons_append, List.nil_append,
        quotedBody_plain (isPrefixOf_quote_of_ne hmark) hplain hlf, ih, Option.map_some]

/-- The first character of a text that is not empty is no mark between quotes. -/
theorem encode_ne_mark (q : Quoting) (cs rest : List Char) (hcs : cs ≠ []) :
    ∃ c tail, q.encode cs ++ rest = c :: tail ∧ c ≠ q.mark := by
  obtain ⟨c, cs, rfl⟩ := List.exists_cons_of_ne_nil hcs
  rw [encode_cons, List.append_assoc]
  rcases q.encodeChar_cases c with ⟨e, hc, -, -⟩ | ⟨hc, hmark, -, -, -⟩
  · exact ⟨'\\', _, by rw [hc]; rfl, (q.mark_ne (by decide)).symm⟩
  · exact ⟨c, _, by rw [hc]; rfl, hmark⟩

/-- A quoted text is its opening marks, the text as it is encoded and its closing marks. -/
theorem enclose_append (q : Quoting) (cs rest : List Char) :
    q.enclose cs ++ rest = q.quote ++ (q.encode cs ++ (q.quote ++ rest)) := by
  simp only [enclose, List.append_assoc]

/-- A quoted text starts with its mark. -/
theorem enclose_eq_cons (q : Quoting) (cs rest : List Char) :
    ∃ tail, q.enclose cs ++ rest = q.mark :: tail := by
  obtain ⟨marks, hquote⟩ := q.quote_eq_cons
  rw [enclose_append, hquote]
  exact ⟨_, rfl⟩

end Quoting

/-! ## Values -/

/-- At the end of a line there is nothing to skip behind an item. -/
theorem skipTail_of_atLineEnd {rest : List Char} (h : atLineEnd rest = true) :
    skipTail rest = rest := by
  cases rest with
  | nil => rfl
  | cons c rest =>
    obtain rfl : c = '\n' := eq_of_beq h
    rfl

namespace Quoting

variable {q q' : Quoting} {rest : List Char}

/-- A quoted text is read back by its own kind of quotes. -/
theorem quoted_enclose (q : Quoting) (cs : List Char) (h : atLineEnd rest = true) :
    quoted q.quote q.triple (q.enclose cs ++ rest) = some (cs, rest) := by
  have hprefix : q.quote.isPrefixOf (q.quote ++ (q.encode cs ++ (q.quote ++ rest))) = true :=
    List.isPrefixOf_iff_prefix.mpr (List.prefix_append _ _)
  have hblank : lineRestIsBlank rest = true := by
    rw [lineRestIsBlank, skipTail_of_atLineEnd h, h]
  rw [quoted, enclose_append, if_pos hprefix, List.drop_left, quotedBody_encode,
    Option.filter_some, if_pos hblank]

/-- Other marks do not fit. -/
theorem quoted_of_mark_ne (h : q'.mark ≠ q.mark) (cs rest : List Char) :
    quoted q'.quote q'.triple (q.enclose cs ++ rest) = none := by
  obtain ⟨tail, htail⟩ := q.enclose_eq_cons cs rest
  rw [quoted, htail, isPrefixOf_quote_of_ne h.symm, if_neg Bool.false_ne_true]

/-- Triple marks do not fit, since what follows the first mark of a value in single marks is not
two more of them. -/
theorem quoted_of_triple (hmark : q'.mark = q.mark) (htriple : q'.triple = true)
    (hsingle : q.triple = false) (cs : List Char) (h : atLineEnd rest = true) :
    quoted q'.quote q'.triple (q.enclose cs ++ rest) = none := by
  have hquote : q.quote = [q.mark] := by rw [quote, hsingle, if_neg Bool.false_ne_true]
  have hquote' : q'.quote = [q.mark, q.mark, q.mark] := by rw [quote, htriple, if_pos rfl, hmark]
  have hprefix : q'.quote.isPrefixOf (q.enclose cs ++ rest) = false := by
    rw [enclose_append, hquote, hquote', List.singleton_append, List.isPrefixOf_cons_cons,
      beq_self_eq_true, Bool.true_and]
    by_cases hcs : cs = []
    · -- an empty value: the second mark ends it, and a line ends there
      subst hcs
      cases rest with
      | nil => simp [encode]
      | cons c rest =>
        obtain rfl : c = '\n' := eq_of_beq h
        have hne : q.mark ≠ '\n' := q.mark_ne (by decide)
        simp [encode, List.isPrefixOf_cons_cons, hne]
    · obtain ⟨c, tail, htail, hne⟩ := q.encode_ne_mark cs ([q.mark] ++ rest) hcs
      rw [htail, List.isPrefixOf_cons_cons, beq_false_of_ne hne.symm, Bool.false_and]
  rw [quoted, hprefix, if_neg Bool.false_ne_true]

/-- The kinds of quotes, in the order in which they are tried. -/
theorem quotes_eq :
    quotes = [(⟨true, true⟩ : Quoting), ⟨false, true⟩, ⟨true, false⟩, ⟨false, false⟩].map
      fun q => (q.quote, q.triple) := rfl

/-- Of the quotes that are tried, the first that fit are the ones that were written. -/
theorem findSome?_quotes_enclose (q : Quoting) (cs : List Char) (h : atLineEnd rest = true) :
    (quotes.findSome? fun (quote, multiline) => quoted quote multiline (q.enclose cs ++ rest)) =
      some (cs, rest) := by
  have hfits := q.quoted_enclose cs h
  -- the kinds that are tried before its own do not fit: other marks, or three of them
  have hskip (q' : Quoting) (hother : q'.mark ≠ q.mark ∨ q'.triple = true ∧ q.triple = false) :
      quoted q'.quote q'.triple (q.enclose cs ++ rest) = none := by
    by_cases hmark : q'.mark = q.mark
    · obtain ⟨htriple, hsingle⟩ := hother.resolve_left (not_not_intro hmark)
      exact quoted_of_triple hmark htriple hsingle cs h
    · exact quoted_of_mark_ne hmark cs rest
  simp only [quotes_eq, List.map_cons, List.findSome?_cons]
  obtain ⟨double, triple⟩ := q
  cases double <;> cases triple
  · simp only [hskip ⟨true, true⟩ (by decide), hskip ⟨false, true⟩ (by decide),
      hskip ⟨true, false⟩ (by decide), hfits]
  · simp only [hskip ⟨true, true⟩ (by decide), hfits]
  · simp only [hskip ⟨true, true⟩ (by decide), hskip ⟨false, true⟩ (by decide), hfits]
  · simp only [hfits]

/-- The value of a key is the text that was put in quotes. -/
theorem value_enclose (q : Quoting) (cs : List Char) (h : atLineEnd rest = true) :
    value (' ' :: (q.enclose cs ++ rest)) = (cs, rest) := by
  have hfind := q.findSome?_quotes_enclose cs h
  obtain ⟨tail, htail⟩ := q.enclose_eq_cons cs rest
  rw [htail] at hfind ⊢
  have hspaces : skipSpaces (' ' :: q.mark :: tail) = q.mark :: tail := by
    rcases q.mark_eq with hmark | hmark <;> rw [hmark] <;> rfl
  have hcomment : (q.mark :: tail).head? ≠ some '#' := by
    rw [List.head?_cons, Ne, Option.some_inj]
    exact q.mark_ne (by decide)
  have hline : ¬ atLineEnd (q.mark :: tail) = true := by
    rw [atLineEnd, beq_iff_eq]
    exact q.mark_ne (by decide)
  rw [value, hspaces, valueAfterSpaces, if_neg hcomment, if_neg hline, hfind]

end Quoting

end LayeredConfig.Document
