import LayeredConfig.Document.Cursor
import LayeredConfig.Proofs.Document.LineEnds
import LayeredConfig.Proofs.Document.Places
import Mathlib.Data.Option.Basic

/-!
# What a part of a reading does

A part of a reading that starts where some characters `cs` are left has a result, and stands where
others are left then (`Reads`). What may find nothing is compared with an optional answer (`Finds`),
and what is tried comes back if it finds nothing (`Tries`). A loop is followed along the characters
that it takes, so that it ends in time (`Loops`). Moves, look-aheads and runs of characters are
parts of this kind, and the rules for `bind`, `guard` and `<|>` put them together.
-/

namespace LayeredConfig

namespace Text

variable {text as cs : List Char}

/-- Behind some characters of a text, the next ones start so many bytes later. -/
theorem startOf_add (h : as ++ cs <:+ text) :
    startOf text (as ++ cs) + byteLength as = startOf text cs := by
  obtain ⟨before, rfl⟩ := h
  rw [startOf_append, ← List.append_assoc, startOf_append, byteLength_append]

/-- Some of a text starts within it. -/
theorem startOf_le (text cs : List Char) : startOf text cs ≤ byteLength text :=
  Nat.sub_le _ _

/-- A text can be cut where an end of it starts. -/
theorem exists_splitAtByte?_startOf (h : cs <:+ text) :
    ∃ before, splitAtByte? text (startOf text cs) = some (before, cs) := by
  obtain ⟨before, rfl⟩ := h
  rw [startOf_append, splitAtByte?_append]
  exact ⟨before, rfl⟩

/-- An end of a text starts at a boundary. -/
theorem isBoundary_startOf (h : cs <:+ text) : IsBoundary text (startOf text cs) := by
  obtain ⟨before, hsplit⟩ := exists_splitAtByte?_startOf h
  rw [IsBoundary, hsplit]
  rfl

end Text

namespace Document

open Text

variable {text as cs cs' cs'' : List Char} {σ α β : Type} {a : α} {b : β} {c : Char}

namespace Boundary

/-- The place at which some of a text is left. -/
def of (h : cs <:+ text) : Boundary text :=
  ⟨startOf text cs, isBoundary_startOf h⟩

/-- From where an end of a text starts, this end is left. -/
theorem rest_of (h : cs <:+ text) : (of h).rest = cs := by
  obtain ⟨before, hsplit⟩ := exists_splitAtByte?_startOf h
  simp only [rest, of, hsplit, Option.get_some]

/-- At the first byte the whole text is left. -/
theorem first_eq (text : List Char) : first text = of List.suffix_rfl := by
  simp only [first, of, startOf, Nat.sub_self]

end Boundary

namespace Cursor

/-! ## Parts of a reading -/

/-- Where `cs` is left of the text, a part of a reading has the result `a`, and then `cs'` is
left. -/
def Reads (scan : Scan text α) (cs : List Char) (a : α) (cs' : List Char) : Prop :=
  ∀ h : cs <:+ text, ∃ h' : cs' <:+ text, scan.run (.of h) = some (a, .of h')

/-- An answer that is found comes with what is left after it. Where nothing is found, anything may
be left. -/
def Found (Result : Option α → List Char → Prop) : Option (α × List Char) → Prop
  | some (a, cs) => Result (some a) cs
  | none => ∃ cs, Result none cs

/-- Where `cs` is left of the text, a part of a reading finds the given answer. If it finds nothing,
it may have moved. -/
def Finds (search : Search text α) (cs : List Char) (found : Option (α × List Char)) : Prop :=
  Found (Reads search.run cs) found

/-- Where `cs` is left of the text, a part of a reading finds the given answer, or finds nothing and
leaves `cs`. -/
def Tries (search : Search text α) (cs : List Char) (found : Option (α × List Char)) : Prop :=
  Reads search.run cs (found.map (·.1)) ((found.map (·.2)).getD cs)

/-- What holds of an answer holds of whatever it implies. -/
theorem Found.imp {Result Result' : Option α → List Char → Prop} {found : Option (α × List Char)}
    (h : Found Result found) (himp : ∀ a cs, Result a cs → Result' a cs) : Found Result' found := by
  cases found with
  | none =>
    obtain ⟨cs, hnone⟩ := h
    exact ⟨cs, himp none cs hnone⟩
  | some r => exact himp (some r.1) r.2 h

/-- A value is a result, and nothing is read for it. -/
theorem reads_pure (a : α) : Reads (pure a : Scan text α) cs a cs :=
  fun h => ⟨h, rfl⟩

/-- The cursor is put where an end of the text starts. -/
theorem reads_set (h : cs' <:+ text) : Reads (set (Boundary.of h) : Scan text Unit) cs () cs' :=
  fun _ => ⟨h, rfl⟩

/-- Two parts of a reading follow one another. -/
theorem Reads.bind {scan : Scan text α} {f : α → Scan text β} (h : Reads scan cs a cs')
    (hf : Reads (f a) cs' b cs'') : Reads (scan >>= f) cs b cs'' := by
  intro hcs
  obtain ⟨hcs', hscan⟩ := h hcs
  obtain ⟨hcs'', hrun⟩ := hf hcs'
  refine ⟨hcs'', ?_⟩
  rw [StateT.run_bind, hscan]
  exact hrun

/-- A part of a reading may depend on where the cursor stands. -/
theorem reads_get_bind {f : Boundary text → Scan text β}
    (hf : ∀ h : cs <:+ text, Reads (f (.of h)) cs b cs') : Reads (get >>= f) cs b cs' :=
  fun h => hf h h

/-- What may find nothing goes on in one of two ways. -/
theorem Reads.elimM {scan : Scan text (Option α)} {found : Option α} {otherwise : Scan text β}
    {f : α → Scan text β} (h : Reads scan cs found cs')
    (hf : Reads (found.elim otherwise f) cs' b cs'') :
    Reads (Option.elimM scan otherwise f) cs b cs'' :=
  Reads.bind h hf

/-- What is found is searched on from. -/
theorem Finds.bind {search : Search text α} {f : α → Search text β}
    {found : Option (β × List Char)} (h : Finds search cs (some (a, cs')))
    (hf : Finds (f a) cs' found) : Finds (search >>= f) cs found := by
  cases found with
  | none =>
    obtain ⟨cs'', hnone⟩ := hf
    refine ⟨cs'', ?_⟩
    rw [OptionT.run_bind]
    exact Reads.elimM h hnone
  | some r =>
    show Reads (search >>= f).run cs (some r.1) r.2
    rw [OptionT.run_bind]
    exact Reads.elimM h hf

/-- Where nothing is found, the search ends. -/
theorem Finds.bind_none {search : Search text α} (h : Finds search cs none)
    (f : α → Search text β) : Finds (search >>= f) cs none := by
  obtain ⟨cs', hnone⟩ := h
  refine ⟨cs', ?_⟩
  rw [OptionT.run_bind]
  exact Reads.elimM hnone (reads_pure none)

/-- A value is found, and nothing is read for it. -/
theorem finds_pure (a : α) : Finds (pure a : Search text α) cs (some (a, cs)) :=
  reads_pure (some a)

/-- A failure finds nothing. -/
theorem finds_failure : Finds (failure : Search text α) cs none :=
  ⟨cs, reads_pure none⟩

/-- What is read is found. -/
theorem finds_lift {scan : Scan text α} (h : Reads scan cs a cs') :
    Finds (liftM scan : Search text α) cs (some (a, cs')) := by
  show Reads (OptionT.lift scan).run cs (some a) cs'
  rw [OptionT.run_lift]
  exact h.bind (reads_pure (some a))

/-- What is read is searched on from. -/
theorem Reads.bind_lift {scan : Scan text α} {f : α → Search text β}
    {found : Option (β × List Char)} (h : Reads scan cs a cs') (hf : Finds (f a) cs' found) :
    Finds ((liftM scan : Search text α) >>= f) cs found :=
  (finds_lift h).bind hf

section guard

variable {p : Prop} [Decidable p] {f : Unit → Search text β}

/-- A condition that holds lets the search go on. -/
theorem finds_guard_bind {found : Option (β × List Char)} (hp : p) (hf : Finds (f ()) cs found) :
    Finds (guard p >>= f) cs found := by
  rw [guard, if_pos hp]
  exact (finds_pure ()).bind hf

/-- A condition that does not hold ends the search. -/
theorem finds_guard_bind_none (hp : ¬ p) : Finds (guard p >>= f) cs none := by
  rw [guard, if_neg hp]
  exact finds_failure.bind_none f

end guard

/-- The cursor comes back to where it was. -/
theorem Reads.ahead {scan : Scan text α} (h : Reads scan cs a cs') :
    Reads (ahead scan) cs a cs :=
  reads_get_bind fun hcs => h.bind ((reads_set hcs).bind (reads_pure a))

/-- Trying a search brings the cursor back if nothing is found. -/
theorem Finds.attempt {search : Search text α} {found : Option (α × List Char)}
    (h : Finds search cs found) : Tries (attempt search) cs found := by
  cases found with
  | none =>
    obtain ⟨cs', hnone⟩ := h
    -- wherever the search has stopped, the cursor is set back to where it was
    exact reads_get_bind fun hcs => Reads.bind hnone ((reads_set hcs).bind (reads_pure none))
  | some r => exact reads_get_bind fun _ => Reads.bind h (reads_pure (some r.1))

/-- A second search is tried from where the first one has found nothing. -/
theorem Tries.orElse {search search' : Search text α} {found found' : Option (α × List Char)}
    (h : Tries search cs found) (h' : Tries search' cs found') :
    Tries (search <|> search') cs (found.or found') := by
  rw [Tries, OptionT.run_orElse]
  cases found with
  | none => exact Reads.elimM h h'
  | some r => exact Reads.elimM h (reads_pure (some r.1))

/-- Trying a failure finds nothing and leaves the cursor. -/
theorem tries_failure : Tries (failure : Search text α) cs none :=
  reads_pure none

/-! ## The cursor -/

/-- The cursor moves to where an end of the text starts. -/
theorem reads_moveTo (h : cs' <:+ text) : Reads (moveTo text (startOf text cs')) cs () cs' := by
  rw [moveTo, dif_pos (isBoundary_startOf h)]
  exact reads_set h

/-- The cursor moves over some characters by as many bytes as they take. -/
theorem reads_moveBy (as cs : List Char) :
    Reads (moveBy text (byteLength as)) (as ++ cs) () cs := by
  rw [moveBy]
  refine reads_get_bind fun hcs => ?_
  rw [Boundary.of, startOf_add hcs]
  exact reads_moveTo ((List.suffix_append as cs).trans hcs)

/-- The cursor moves over a character by as many bytes as it takes. -/
theorem reads_moveBy_char : Reads (moveBy text c.utf8Size) (c :: cs) () cs :=
  reads_moveBy [c] cs

/-- So it does if it is stopped at the end of the text. -/
theorem reads_advance (text as cs : List Char) :
    Reads (advance text (byteLength as)) (as ++ cs) () cs := by
  rw [advance]
  refine reads_get_bind fun hcs => ?_
  rw [Boundary.of, startOf_add hcs, Nat.min_eq_left (startOf_le text cs)]
  exact reads_moveTo ((List.suffix_append as cs).trans hcs)

/-- The characters that are left are read, and stay. -/
theorem reads_rest : Reads (rest text) cs cs cs := by
  rw [rest]
  refine reads_get_bind fun hcs => ?_
  rw [Boundary.rest_of hcs]
  exact reads_pure cs

/-- Characters are cut behind as many bytes as the first part takes. -/
theorem reads_cut (as bs : List Char) :
    Reads (cut text (as ++ bs) (byteLength as)) cs (as, bs) cs := by
  rw [cut, splitAtByte?_append]
  exact reads_pure (as, bs)

/-- Between two places the characters between them are read. -/
theorem reads_slice (h : cs <:+ text) (hsplit : as ++ cs' = cs) :
    Reads (slice text (startOf text cs) (startOf text cs')) cs' as cs' := by
  subst hsplit
  have hadd := startOf_add h
  -- the two places are as far apart as the characters between them are long
  have hcount : startOf text cs' - startOf text (as ++ cs') = byteLength as := by omega
  obtain ⟨before, hsplit⟩ := exists_splitAtByte?_startOf h
  rw [slice, if_pos (by omega), hcount, cut, hsplit]
  exact Reads.bind (reads_pure (before, as ++ cs')) ((reads_cut as cs').bind (reads_pure as))

/-- Looking at the next character leaves the cursor. -/
theorem reads_startsWith (c : Char) :
    Reads (startsWith text c) cs (cs.head? == some c) cs :=
  reads_rest.bind (reads_pure _)

/-- Looking for the end of a line leaves the cursor. -/
theorem reads_lineEnds : Reads (lineEnds text) cs (atLineEnd cs) cs :=
  reads_rest.bind (reads_pure _)

/-- At the end of the text there is no next character. -/
theorem reads_next_nil : Reads (next text) [] none [] :=
  reads_rest.bind (reads_pure none)

/-- The next character is taken. -/
theorem reads_next_cons : Reads (next text) (c :: cs) (some c) cs :=
  reads_rest.bind (reads_moveBy_char.bind (reads_pure (some c)))

/-- Characters that are expected are taken. -/
theorem reads_eat_append (as cs : List Char) :
    Reads (eat text as) (as ++ cs) true cs := by
  rw [eat]
  refine reads_rest.bind ?_
  rw [if_pos (List.isPrefixOf_iff_prefix.mpr (List.prefix_append as cs))]
  exact (reads_moveBy as cs).bind (reads_pure true)

/-- Where others stand, the cursor is left. -/
theorem reads_eat_of_not (h : as.isPrefixOf cs = false) : Reads (eat text as) cs false cs := by
  rw [eat]
  refine reads_rest.bind ?_
  rw [h]
  exact reads_pure false

/-- The same, with the condition that a pattern leaves behind. -/
theorem reads_eat_of_ne (h : ∀ left, cs = as ++ left → False) :
    Reads (eat text as) cs false cs := by
  apply reads_eat_of_not
  apply Bool.eq_false_iff.mpr
  intro hprefix
  obtain ⟨left, rfl⟩ := List.isPrefixOf_iff_prefix.mp hprefix
  exact h left rfl

/-- A character that has to come next is there. -/
theorem finds_expect {f : Unit → Search text β} {found : Option (β × List Char)}
    (hf : Finds (f ()) cs found) :
    Finds (do let there ← eat text [c]; guard there >>= f : Search text β) (c :: cs) found :=
  (reads_eat_append [c] cs).bind_lift (finds_guard_bind rfl hf)

/-- A character that has to come next is not there. -/
theorem finds_expect_none {f : Unit → Search text β} (h : ∀ left, cs = c :: left → False) :
    Finds (do let there ← eat text [c]; guard there >>= f : Search text β) cs none :=
  (reads_eat_of_ne h).bind_lift (finds_guard_bind_none Bool.false_ne_true)

/-! ## Loops -/

/-- Where `cs` is left of the text, a loop has the result `a` after one round more than there are
characters at most, and then `cs'` is left. -/
def Loops (step : σ → Scan text (σ ⊕ α)) (s : σ) (cs : List Char) (a : α) (cs' : List Char) :
    Prop :=
  ∀ rounds, cs.length < rounds → Reads (iterate step rounds s) cs a cs'

section Loops

variable {step : σ → Scan text (σ ⊕ α)} {s s' : σ}

/-- A loop ends with a step that has a result. -/
theorem Loops.done (h : Reads (step s) cs (.inr a) cs') : Loops step s cs a cs' := by
  intro rounds hrounds
  cases rounds with
  | zero => exact absurd hrounds (Nat.not_lt_zero _)
  | succ rounds => exact h.bind (reads_pure a)

/-- A step that takes a character leaves rounds enough for the others. -/
theorem Loops.again (h : Reads (step s) cs (.inl s') cs') (hlength : cs'.length < cs.length)
    (hnext : Loops step s' cs' a cs'') : Loops step s cs a cs'' := by
  intro rounds hrounds
  cases rounds with
  | zero => exact absurd hrounds (Nat.not_lt_zero _)
  | succ rounds => exact h.bind (hnext rounds (by omega))

/-- A loop has rounds enough. -/
theorem Loops.reads (h : Loops step s cs a cs') : Reads (loop text step s) cs a cs' :=
  fun hcs => h (text.length + 1) (Nat.lt_succ_of_le hcs.length_le) hcs

end Loops

/-! ## Runs of characters -/

/-- A character that fits is skipped. -/
theorem reads_skipNext_of_pos {p : Char → Bool} (hc : p c = true) :
    Reads (skipNext text p) (c :: cs) (.inl ()) cs := by
  refine reads_rest.bind ?_
  show Reads (if p c then _ else _) _ _ _
  rw [if_pos hc]
  exact reads_moveBy_char.bind (reads_pure _)

/-- Another one is not. -/
theorem reads_skipNext_of_neg {p : Char → Bool} (hc : ¬ p c = true) :
    Reads (skipNext text p) (c :: cs) (.inr ()) (c :: cs) := by
  refine reads_rest.bind ?_
  show Reads (if p c then _ else _) _ _ _
  rw [if_neg hc]
  exact reads_pure _

/-- The cursor skips a run of characters one by one. -/
theorem reads_skipWhile (p : Char → Bool) (cs : List Char) :
    Reads (skipWhile text p) cs () (cs.dropWhile p) := by
  apply Loops.reads
  induction cs with
  | nil => exact .done (reads_rest.bind (reads_pure _))
  | cons c cs ih =>
    rw [List.dropWhile_cons]
    split
    · -- each character that fits is one round of the loop
      rename_i hc
      exact .again (reads_skipNext_of_pos hc) (Nat.lt_succ_self _) ih
    · rename_i hc
      exact .done (reads_skipNext_of_neg hc)

/-- The characters that fit are taken, and the cursor stands behind them. -/
theorem reads_eatWhile (p : Char → Bool) (cs : List Char) :
    Reads (eatWhile text p) cs (cs.takeWhile p) (cs.dropWhile p) := by
  rw [eatWhile]
  refine reads_get_bind fun hcs => (reads_skipWhile p cs).bind (reads_get_bind fun _ => ?_)
  exact reads_slice hcs List.takeWhile_append_dropWhile

/-- White space is taken. -/
theorem reads_eatSpaces (cs : List Char) :
    Reads (eatSpaces text) cs (startsWithSpace cs) (skipSpaces cs) := by
  -- some white space is taken if the first character is white space
  have hspaces : (cs.takeWhile isSpace != []) = startsWithSpace cs := by
    cases cs with
    | nil => rfl
    | cons c cs =>
      rw [List.takeWhile_cons]
      cases hc : isSpace c <;> simp [startsWithSpace, hc]
  rw [eatSpaces, ← hspaces]
  exact (reads_eatWhile isSpace cs).bind (reads_pure _)

/-- The rest of a line is taken. -/
theorem reads_eatLine (text cs : List Char) : Reads (eatLine text) cs () (skipLine cs) := by
  rw [eatLine]
  exact (reads_eatWhile _ cs).bind (reads_pure ())

end Cursor

end Document

end LayeredConfig
