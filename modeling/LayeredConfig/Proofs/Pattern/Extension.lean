import LayeredConfig.Pattern.Token
import LayeredConfig.Proofs.Except
import Mathlib.Data.List.TakeWhile

/-!
# Patterns in front of a closing parenthesis

What a reader takes from a text it also takes when a closing parenthesis and some `tail` stand
behind the text, and it leaves them alone (`Extendable`). No reader takes the parenthesis for a part
of what it reads: where the text ends, it has either failed already, or could only go on with
characters of its own.

There is one exception. When the text ends in a comment, the parenthesis is in the comment too, and
nothing is left of it. That is the second case of `Extends`.
-/

namespace LayeredConfig.Pattern

/-- `cs` is what is left of the text `start`, and `cs'` is what is left where `)` and `tail` follow
it. -/
structure Extends (tail start cs cs' : List Char) : Prop where
  suffix : cs <:+ start
  /-- The same is left with these behind it, unless a comment has swallowed them. -/
  same : cs' = cs ++ ')' :: tail ∨ cs = [] ∧ cs' = []

variable {table : PropertyTable} {tail start cs cs' rest : List Char} {c : Char} {verbose : Bool}
  {flags : MatchFlags}

namespace Extends

/-- Nothing of the text has been read. -/
theorem refl (tail start : List Char) : Extends tail start start (start ++ ')' :: tail) :=
  ⟨List.suffix_rfl, .inl rfl⟩

/-- What is left can be taken as the text. -/
theorem restart (h : Extends tail start cs cs') : Extends tail cs cs cs' :=
  ⟨List.suffix_rfl, h.same⟩

/-- What is left of what is left is left of the text. -/
theorem trans {ds ds' : List Char} (h : Extends tail start cs cs') (hds : Extends tail cs ds ds') :
    Extends tail start ds ds' :=
  ⟨hds.suffix.trans h.suffix, hds.same⟩

/-- The longer text has something left where the text has. -/
theorem ne_nil (h : Extends tail start cs cs') (hne : cs ≠ []) : cs' ≠ [] := by
  rcases h.same with rfl | ⟨hnil, -⟩
  · exact List.append_ne_nil_of_left_ne_nil hne _
  · exact absurd hnil hne

/-- The character that is next in the text is next in the longer one. -/
theorem cons (h : Extends tail start (c :: cs) cs') :
    ∃ ds, cs' = c :: ds ∧ Extends tail start cs ds := by
  rcases h.same with rfl | ⟨hnil, -⟩
  · exact ⟨_, rfl, (List.suffix_cons c cs).trans h.suffix, .inl rfl⟩
  · cases hnil

/-- So are two characters. -/
theorem cons_cons {d : Char} (h : Extends tail start (c :: d :: cs) cs') :
    ∃ ds, cs' = c :: d :: ds ∧ Extends tail start cs ds := by
  obtain ⟨es, rfl, hes⟩ := h.cons
  obtain ⟨ds, rfl, hds⟩ := hes.cons
  exact ⟨ds, rfl, hds⟩

/-- A character that is not next in the text is not next in the longer one. -/
theorem ne_cons (h : Extends tail start cs cs') (hc : c ≠ ')') (hcs : ∀ ds, cs ≠ c :: ds) :
    ∀ ds, cs' ≠ c :: ds := by
  rintro ds rfl
  rcases h.same with heq | ⟨-, hnil⟩
  · cases cs with
    | nil => exact hc (List.cons.inj heq).1
    | cons d cs =>
      obtain ⟨rfl, -⟩ := List.cons.inj heq
      exact hcs cs rfl
  · cases hnil

/-- Two characters that are not next in the text are not next in the longer one, since the
parenthesis is neither of them. -/
theorem ne_cons_cons {d : Char} (h : Extends tail start cs cs') (hc : c ≠ ')') (hd : d ≠ ')')
    (hcs : ∀ ds, cs ≠ c :: d :: ds) (ds : List Char) : cs' ≠ c :: d :: ds := by
  by_cases hfirst : ∃ es, cs = c :: es
  · obtain ⟨es, rfl⟩ := hfirst
    obtain ⟨es', rfl, hes⟩ := h.cons
    intro heq
    refine hes.ne_cons hd (fun gs hgs => hcs gs (hgs ▸ rfl)) ds (List.cons.inj heq).2
  · exact h.ne_cons hc (not_exists.mp hfirst) _

/-- Between two moments at which something is left of the text, both readers take as much. -/
theorem length_eq_iff {ds ds' : List Char} (h : Extends tail start cs cs')
    (hds : Extends tail cs ds ds') (hne : ds ≠ []) :
    ds'.length = cs'.length ↔ ds.length = cs.length := by
  have hds' := hds.same.resolve_right fun hnil => hne hnil.1
  have hcs' := h.same.resolve_right fun hnil => hne (List.suffix_nil.mp (hnil.1 ▸ hds.suffix))
  simp [hds', hcs']

/-- No less is left of the longer text. -/
theorem length_le (h : Extends tail start cs cs') : cs.length ≤ cs'.length := by
  rcases h.same with rfl | ⟨rfl, rfl⟩
  · rw [List.length_append]
    exact Nat.le_add_right _ _
  · exact Nat.le_refl _

end Extends

/-! ## Blanks -/

/-- Skipping white space and comments leaves an end of the text. -/
theorem skipVerbose_go_suffix (inComment : Bool) (cs : List Char) :
    skipVerbose.go inComment cs <:+ cs := by
  induction cs generalizing inComment with
  | nil => exact List.nil_suffix
  | cons c cs ih =>
    cases inComment with
    | true => exact (ih _).trans (List.suffix_cons c cs)
    | false =>
      rw [skipVerbose.go]
      split
      next => exact (ih _).trans (List.suffix_cons c cs)
      next =>
        split
        next => exact (ih _).trans (List.suffix_cons c cs)
        next => exact List.suffix_rfl

/-- So it does where they are only skipped if the flag says so. -/
theorem skipVerbose_suffix (verbose : Bool) (cs : List Char) : skipVerbose verbose cs <:+ cs := by
  cases verbose with
  | true => exact skipVerbose_go_suffix false cs
  | false => exact List.suffix_rfl

/-- In a comment that no line feed ends all is skipped. -/
theorem skipVerbose_go_comment (h : '\n' ∉ cs) : skipVerbose.go true cs = [] := by
  induction cs with
  | nil => rfl
  | cons c cs ih =>
    have hc : c ≠ '\n' := fun heq => h (heq ▸ List.mem_cons_self)
    rw [skipVerbose.go, bne_iff_ne.mpr hc, ih fun hmem => h (List.mem_cons_of_mem c hmem)]

/-- White space and comments are skipped up to the parenthesis, unless a comment takes it as
well. -/
theorem skipVerbose_go_append (htail : '\n' ∉ tail) (inComment : Bool) (cs : List Char) :
    skipVerbose.go inComment (cs ++ ')' :: tail) = skipVerbose.go inComment cs ++ ')' :: tail ∨
      skipVerbose.go inComment cs = [] ∧ skipVerbose.go inComment (cs ++ ')' :: tail) = [] := by
  induction cs generalizing inComment with
  | nil =>
    cases inComment with
    | true =>
      -- the text ends inside a comment, which goes on over the tail, since that has no line feed
      have hall := skipVerbose_go_comment htail
      exact .inr ⟨rfl, hall⟩
    | false => exact .inl rfl
  | cons c cs ih =>
    cases inComment with
    | true => exact ih _
    | false =>
      rw [List.cons_append, skipVerbose.go, skipVerbose.go]
      by_cases hblank : Text.isWhitespace c = true
      · rw [if_pos hblank, if_pos hblank]
        exact ih false
      · rw [if_neg hblank, if_neg hblank]
        by_cases hhash : c = '#'
        · rw [if_pos hhash, if_pos hhash]
          exact ih true
        · rw [if_neg hhash, if_neg hhash]
          exact .inl rfl

/-- Skipping leaves the longer text longer by the same. -/
theorem Extends.skip (verbose : Bool) (htail : '\n' ∉ tail) (h : Extends tail start cs cs') :
    Extends tail start (skipVerbose verbose cs) (skipVerbose verbose cs') := by
  refine ⟨(skipVerbose_suffix verbose cs).trans h.suffix, ?_⟩
  rcases h.same with rfl | ⟨rfl, rfl⟩
  · cases verbose with
    | true => exact skipVerbose_go_append htail false cs
    | false => exact .inl rfl
  · refine .inr ⟨?_, ?_⟩ <;> exact List.suffix_nil.mp (skipVerbose_suffix verbose [])

/-! ## Runs of characters -/

/-- Nothing is taken from an empty text. -/
theorem takeSpaced_nil (p : Char → Bool) (n : Nat) : takeSpaced verbose p n [] = ([], []) := by
  cases n <;> rfl

/-- Nothing is taken where the text ends. -/
theorem takeSpaced_of_extends_nil {p : Char → Bool} (h : Extends tail start [] cs')
    (hp : p ')' = false) (n : Nat) : takeSpaced verbose p n cs' = ([], cs') := by
  rcases h.same with rfl | ⟨-, rfl⟩
  · cases n with
    | zero => rfl
    | succ n => simp [takeSpaced, hp]
  · exact takeSpaced_nil p n

/-- Characters are taken from both texts alike, if these end before the parenthesis; and a bound
that the shorter text does not reach may be greater for the longer one. -/
theorem Extends.takeSpaced (verbose : Bool) (p : Char → Bool) (htail : '\n' ∉ tail) {n n' : Nat}
    (h : Extends tail start cs cs') (hn : n = n' ∨ cs.length ≤ n ∧ n ≤ n')
    (hstop : p ')' = false ∨ (takeSpaced verbose p n cs).2 ≠ []) :
    (Pattern.takeSpaced verbose p n' cs').1 = (Pattern.takeSpaced verbose p n cs).1 ∧
      Extends tail start (Pattern.takeSpaced verbose p n cs).2
        (Pattern.takeSpaced verbose p n' cs').2 := by
  induction n generalizing cs cs' n' with
  | zero =>
    obtain rfl | ⟨hle, -⟩ := hn
    · exact ⟨rfl, h⟩
    · obtain rfl := List.length_eq_zero_iff.mp (Nat.le_zero.mp hle)
      rw [takeSpaced_of_extends_nil h (hstop.resolve_right fun hne => hne rfl)]
      exact ⟨rfl, h⟩
  | succ n ih =>
    cases cs with
    | nil =>
      rw [takeSpaced_of_extends_nil h (hstop.resolve_right fun hne => hne rfl)]
      exact ⟨rfl, h⟩
    | cons c cs =>
      obtain ⟨ds, rfl, hds⟩ := h.cons
      obtain ⟨n', rfl⟩ : ∃ m, n' = m + 1 := Nat.exists_eq_add_one.mpr (by omega)
      rw [Pattern.takeSpaced] at hstop
      rw [Pattern.takeSpaced, Pattern.takeSpaced]
      by_cases hc : p c = true
      · rw [if_pos hc] at hstop
        rw [if_pos hc, if_pos hc]
        have hlength := (skipVerbose_suffix verbose cs).length_le
        rw [List.length_cons] at hn
        obtain ⟨htaken, hrest⟩ :=
          ih (hds.skip _ htail) (show n = n' ∨ _ ≤ n ∧ n ≤ n' by omega) hstop
        exact ⟨congrArg (c :: ·) htaken, hrest⟩
      · rw [if_neg hc, if_neg hc]
        exact ⟨rfl, h⟩

/-! ## Readers -/

/-- What a reader takes from a text it takes from the longer text too. -/
def Extendable (tail : List Char) (r : Reader α) : Prop :=
  ∀ {start cs cs' a rest}, Extends tail start cs cs' → r cs = .ok (a, rest) →
    ∃ rest', r cs' = .ok (a, rest') ∧ Extends tail start rest rest'

/-- A code is read up to its last digit or its brace. -/
theorem extendable_readHex (htail : '\n' ∉ tail) (kind : Char) :
    Extendable tail (readHex verbose kind) := by
  intro start cs cs' a rest h hread
  have hskip := h.skip verbose htail
  unfold readHex at hread ⊢
  split at hread
  next ds hds =>
    rw [hds] at hskip
    obtain ⟨ds', hds', hext⟩ := hskip.cons
    simp only [hds']
    replace hext := hext.skip verbose htail
    obtain ⟨hdigits, hrest⟩ := hext.takeSpaced verbose Text.isHexDigit htail
      (.inr ⟨Nat.le_refl _, hext.length_le⟩) (.inl rfl)
    simp only [hdigits]
    simp only at hread
    split at hread
    next ds hclose =>
      rw [hclose] at hrest
      obtain ⟨ds', hclose', hrest⟩ := hrest.cons
      simp only [hclose']
      split at hread
      next => cases hread
      next hsome =>
        obtain ⟨c, hc, hread⟩ := Except.bind_eq_ok_iff.mp hread
        cases hread
        exact ⟨ds', by rw [if_neg hsome, hc]; rfl, hrest⟩
    next => cases hread
  next hbrace =>
    split
    next ds hds => exact absurd hds (hskip.ne_cons (by decide) hbrace ds)
    next =>
      obtain ⟨hdigits, hrest⟩ := hskip.takeSpaced verbose Text.isHexDigit htail
        (.inl (Eq.refl (hexDigitCount kind))) (.inl rfl)
      simp only [hdigits]
      simp only at hread
      split at hread
      next => cases hread
      next hcount =>
        obtain ⟨c, hc, hread⟩ := Except.bind_eq_ok_iff.mp hread
        cases hread
        exact ⟨_, by rw [if_neg hcount, hc]; rfl, hrest⟩

/-- A word boundary is read, up to the brace behind its name if it has one. -/
theorem extendable_readWordEdge (htail : '\n' ∉ tail) :
    Extendable tail (readWordEdge flags) := by
  intro start cs cs' a rest h hread
  unfold readWordEdge at hread ⊢
  split at hread
  next ds =>
    obtain ⟨ds', rfl, hext⟩ := h.cons
    replace hext := hext.skip flags.verbose htail
    split at hread
    next => cases hread
    next c es hc =>
      rw [hc] at hext
      obtain ⟨es', hes', -⟩ := hext.cons
      rw [hes'] at hext
      simp only [hes']
      simp only at hread
      split at hread
      next hname =>
        rw [if_pos hname]
        obtain ⟨htaken, hrest⟩ := hext.takeSpaced flags.verbose
          (fun c => c.isAlpha || c == '-') htail (.inr ⟨Nat.le_refl _, hext.length_le⟩) (.inl rfl)
        simp only [htaken]
        split at hread
        next edge gs hedge hclose =>
          cases hread
          rw [hclose] at hrest
          obtain ⟨rest', hclose', hrest⟩ := hrest.cons
          exact ⟨rest', by simp only [hclose', hedge], hrest⟩
        next => cases hread
      next hname =>
        cases hread
        exact ⟨_, by rw [if_neg hname], h⟩
  next hbrace =>
    cases hread
    split
    next ds => exact absurd rfl (h.ne_cons (by decide) hbrace ds)
    next => exact ⟨_, rfl, h⟩

/-- The name of a property: a single letter, or what stands in braces. -/
def readPropertyName (verbose : Bool) : Reader (List Char) := fun cs =>
  match skipVerbose verbose cs with
  | '\x7b' :: cs =>
    let cs := skipVerbose verbose cs
    match takeSpaced verbose (· != '\x7d') cs.length cs with
    | (name, _ :: rest) => .ok (name, rest)
    | (_, []) => .error .unexpectedEnd
  | c :: cs => .ok ([c], cs)
  | [] => .error .unexpectedEnd

/-- The set of the property with a given name. -/
def propertySet (table : PropertyTable) (flags : MatchFlags) (letter : Char) (name : List Char) :
    Except PatternError Primitive :=
  match flags.unicode, table (String.ofList name) flags.anyCase (letter == 'P') with
  | true, some set => .ok (.oneOf set)
  | _, _ => .error .unknownProperty

/-- A property is its name, looked up in the table. -/
theorem readProperty_eq (letter : Char) (cs : List Char) : readProperty table flags letter cs =
    readPropertyName flags.verbose cs >>= fun (name, rest) =>
      (propertySet table flags letter name).map (·, rest) := by
  unfold readProperty
  extract_lets finish
  -- the table is asked last, whichever way the name was written
  have hfinish : finish = fun r => (propertySet table flags letter r.1).map (·, r.2) := by
    funext ⟨name, rest⟩
    simp only [finish, propertySet]
    rcases flags.unicode <;> rcases table _ _ _ <;> rfl
  rw [hfinish]
  unfold readPropertyName
  rcases skipVerbose flags.verbose cs with _ | ⟨c, ds⟩
  · rfl
  · by_cases hbrace : c = '\x7b'
    · subst hbrace
      simp only
      rcases takeSpaced flags.verbose (· != '\x7d') _ _ with ⟨name, _ | ⟨_, rest⟩⟩ <;> rfl
    · simp

/-- The name of a property is read up to its brace. -/
theorem extendable_readPropertyName (htail : '\n' ∉ tail) :
    Extendable tail (readPropertyName verbose) := by
  intro start cs cs' a rest h hread
  have hskip := h.skip verbose htail
  unfold readPropertyName at hread ⊢
  split at hread
  next ds hds =>
    rw [hds] at hskip
    obtain ⟨ds', hds', hext⟩ := hskip.cons
    replace hext := hext.skip verbose htail
    simp only [hds']
    simp only at hread
    split at hread
    next name close es htaken =>
      cases hread
      -- the closing brace has been found, so that the name does not run into the parenthesis
      have hstop : (takeSpaced verbose (· != '\x7d') (skipVerbose verbose ds).length
          (skipVerbose verbose ds)).2 ≠ [] := by
        rw [htaken]
        exact List.cons_ne_nil _ _
      obtain ⟨hname, hrest⟩ :=
        hext.takeSpaced _ _ htail (.inr ⟨Nat.le_refl _, hext.length_le⟩) (.inr hstop)
      rw [htaken] at hname hrest
      obtain ⟨es', hes', hrest⟩ := hrest.cons
      have htaken' : takeSpaced verbose (· != '\x7d') (skipVerbose verbose ds').length
          (skipVerbose verbose ds') = (a, close :: es') := Prod.ext hname hes'
      exact ⟨es', by rw [htaken'], hrest⟩
    next => cases hread
  next c ds hbrace hds =>
    cases hread
    rw [hds] at hskip
    obtain ⟨ds', hds', hext⟩ := hskip.cons
    rw [hds']
    refine ⟨ds', ?_, hext⟩
    split
    next heq =>
      cases heq
      exact (hbrace rfl).elim
    next heq =>
      cases heq
      rfl
    next heq => cases heq
  next => cases hread

/-- A property is read up to the end of its name. -/
theorem extendable_readProperty (htail : '\n' ∉ tail) (letter : Char) :
    Extendable tail (readProperty table flags letter) := by
  intro start cs cs' a rest h hread
  rw [readProperty_eq] at hread ⊢
  obtain ⟨⟨name, ds⟩, hname, hread⟩ := Except.bind_eq_ok_iff.mp hread
  obtain ⟨set, hset, heq⟩ := Except.map_eq_ok_iff.mp hread
  cases heq
  obtain ⟨rest', hname', hext⟩ := extendable_readPropertyName htail h hname
  refine ⟨rest', ?_, hext⟩
  exact Except.bind_eq_ok_iff.mpr ⟨_, hname', Except.map_eq_ok_iff.mpr ⟨_, hset, rfl⟩⟩

/-- An escape is read up to its own end. -/
theorem extendable_readEscape (htail : '\n' ∉ tail) :
    Extendable tail (readEscape table flags) := by
  intro start cs cs' a rest h hread
  cases cs with
  | nil => cases hread
  | cons c cs =>
    obtain ⟨ds, rfl, hext⟩ := h.cons
    unfold readEscape at hread ⊢
    simp only at hread ⊢
    split at hread
    next => cases hread
    next hdigit =>
      rw [if_neg hdigit]
      split at hread
      next hescape =>
        rw [if_pos hescape]
        cases hread
        exact ⟨_, rfl, hext⟩
      next hescape =>
        rw [if_neg hescape]
        split at hread
        all_goals first
          | exact extendable_readHex htail _ hext hread
          | exact extendable_readProperty htail _ hext hread
          | exact extendable_readWordEdge htail hext hread
          | (cases hread <;> exact ⟨_, rfl, hext⟩)

/-! ## Classes -/

/-- No hyphens are read where none comes first. -/
theorem readHyphens_of_ne (h : ∀ ds, cs ≠ '-' :: ds) (n : Nat) (cls : OpenClass) :
    readHyphens verbose n cls cs = (cls, cs) := by
  unfold readHyphens
  split
  next ds => exact absurd rfl (h ds)
  next => rfl

/-- The hyphens at the start of a class are the same in the longer text. -/
theorem Extends.hyphens (verbose : Bool) (cls : OpenClass) (htail : '\n' ∉ tail) {n n' : Nat}
    (h : Extends tail start cs cs') (hn : cs.length ≤ n) (hle : n ≤ n') :
    (readHyphens verbose n' cls cs').1 = (readHyphens verbose n cls cs).1 ∧
      Extends tail start (readHyphens verbose n cls cs).2 (readHyphens verbose n' cls cs').2 := by
  induction n generalizing cs cs' n' cls with
  | zero =>
    obtain rfl := List.length_eq_zero_iff.mp (Nat.le_zero.mp hn)
    rw [readHyphens_of_ne (h.ne_cons (by decide) (by simp))]
    exact ⟨rfl, h⟩
  | succ n ih =>
    by_cases hhyphen : ∃ ds, cs = '-' :: ds
    · obtain ⟨ds, rfl⟩ := hhyphen
      obtain ⟨ds', rfl, hext⟩ := h.cons
      obtain ⟨n', rfl⟩ : ∃ m, n' = m + 1 := Nat.exists_eq_add_one.mpr (by omega)
      have hlength := (skipVerbose_suffix verbose ds).length_le
      rw [List.length_cons] at hn
      exact ih _ (hext.skip _ htail) (by omega) (by omega)
    · rw [readHyphens_of_ne (not_exists.mp hhyphen),
        readHyphens_of_ne (h.ne_cons (by decide) (not_exists.mp hhyphen))]
      exact ⟨rfl, h⟩

/-- The mark of negation at the start of a class. -/
def readNegation (verbose : Bool) (cs : List Char) : Bool × List Char :=
  match skipVerbose verbose cs with
  | '^' :: cs => (true, skipVerbose verbose cs)
  | cs => (false, cs)

/-- A bracket that comes first in a class, when `length` characters are left at its start. -/
def readFirstBracket (verbose : Bool) (length : Nat) (r : OpenClass × List Char) :
    OpenClass × List Char :=
  match r.2 with
  | ']' :: after =>
    if r.2.length = length then (r.1.addChar ']', skipVerbose verbose after) else (r.1, r.2)
  | _ => (r.1, r.2)

/-- The start of a class as it is read after the mark of negation. -/
def openClassBody (verbose : Bool) (start : Bool × List Char) : OpenClass × List Char :=
  readFirstBracket verbose start.2.length
    (readHyphens verbose start.2.length { negated := start.1 } start.2)

/-- A class is opened exactly if the text goes on behind its start. -/
theorem openClass_eq_ok_iff {cs rest : List Char} {cls : OpenClass} :
    openClass flags cs = .ok (cls, rest) ↔
      openClassBody flags.verbose (readNegation flags.verbose cs) = (cls, rest) ∧ rest ≠ [] := by
  have heq : openClass flags cs =
      let r := openClassBody flags.verbose (readNegation flags.verbose cs)
      if r.2.isEmpty then .error .unclosedClass else .ok r := rfl
  rw [heq]
  simp only [List.isEmpty_iff]
  split
  next hnil =>
    refine ⟨nofun, ?_⟩
    rintro ⟨hr, hne⟩
    rw [hr] at hnil
    exact absurd hnil hne
  next hne =>
    rw [Except.ok.injEq]
    refine ⟨fun hr => ⟨hr, ?_⟩, fun hr => hr.1⟩
    rwa [hr] at hne

/-- The mark of negation is the same in the longer text. -/
theorem Extends.negation (verbose : Bool) (htail : '\n' ∉ tail) (h : Extends tail start cs cs') :
    (readNegation verbose cs').1 = (readNegation verbose cs).1 ∧
      Extends tail start (readNegation verbose cs).2 (readNegation verbose cs').2 := by
  have hskip := h.skip verbose htail
  unfold readNegation
  by_cases hcaret : ∃ ds, skipVerbose verbose cs = '^' :: ds
  · obtain ⟨ds, hds⟩ := hcaret
    rw [hds] at hskip ⊢
    obtain ⟨ds', hds', hext⟩ := hskip.cons
    rw [hds']
    exact ⟨rfl, hext.skip _ htail⟩
  · split
    next ds hds => exact absurd hds (hskip.ne_cons (by decide) (not_exists.mp hcaret) ds)
    next =>
      split
      next ds hds => exact absurd ⟨ds, hds⟩ hcaret
      next => exact ⟨rfl, hskip⟩

/-- A bracket that comes first in a class does so in the longer text. -/
theorem Extends.firstBracket (verbose : Bool) (htail : '\n' ∉ tail) {r r' : OpenClass × List Char}
    (h : Extends tail start cs cs') (hsame : r'.1 = r.1) (hr : Extends tail cs r.2 r'.2) :
    (readFirstBracket verbose cs'.length r').1 = (readFirstBracket verbose cs.length r).1 ∧
      Extends tail cs (readFirstBracket verbose cs.length r).2
        (readFirstBracket verbose cs'.length r').2 := by
  obtain ⟨cls, ds⟩ := r
  obtain ⟨_, ds'⟩ := r'
  obtain rfl := hsame
  unfold readFirstBracket
  by_cases hbracket : ∃ after, ds = ']' :: after
  · obtain ⟨after, rfl⟩ := hbracket
    obtain ⟨after', rfl, hext⟩ := hr.cons
    simp only [h.length_eq_iff hr (List.cons_ne_nil _ _)]
    split
    next => exact ⟨rfl, hext.skip _ htail⟩
    next => exact ⟨rfl, hr⟩
  · split
    next after hds' =>
      exact absurd hds' (hr.ne_cons (by decide) (not_exists.mp hbracket) after)
    next =>
      split
      next after hds => exact absurd ⟨after, hds⟩ hbracket
      next => exact ⟨rfl, hr⟩

/-- The start of a class is the same in the longer text. -/
theorem Extends.classStart (verbose : Bool) (htail : '\n' ∉ tail) {n n' : Bool × List Char}
    (hn : n'.1 = n.1) (h : Extends tail start n.2 n'.2) :
    (openClassBody verbose n').1 = (openClassBody verbose n).1 ∧
      Extends tail start (openClassBody verbose n).2 (openClassBody verbose n').2 := by
  have hhyphens := h.restart.hyphens verbose { negated := n.1 } htail
    (Nat.le_refl _) h.length_le
  have hbracket := h.firstBracket verbose htail hhyphens.1 hhyphens.2
  unfold openClassBody
  rw [hn]
  exact ⟨hbracket.1, h.trans hbracket.2⟩

/-- A class is opened up to its first item. -/
theorem extendable_openClass (htail : '\n' ∉ tail) : Extendable tail (openClass flags) := by
  intro start cs cs' a rest h hread
  obtain ⟨hbody, hne⟩ := openClass_eq_ok_iff.mp hread
  obtain ⟨hnegated, hstart⟩ := h.negation flags.verbose htail
  obtain ⟨hcls, hrest⟩ := hstart.classStart flags.verbose htail hnegated
  rw [hbody] at hcls hrest
  refine ⟨(openClassBody flags.verbose (readNegation flags.verbose cs')).2, ?_, hrest⟩
  exact openClass_eq_ok_iff.mpr ⟨Prod.ext hcls rfl, hrest.ne_nil hne⟩

/-! ## Named classes and the items of a class -/

/-- Where a run of characters stops before the end of a text, it stops there in the longer text. -/
theorem takeWhile_append_of_dropWhile_ne_nil {p : Char → Bool} (h : cs.dropWhile p ≠ [])
    (ds : List Char) : (cs ++ ds).takeWhile p = cs.takeWhile p ∧
      (cs ++ ds).dropWhile p = cs.dropWhile p ++ ds := by
  have hlength := congrArg List.length (List.takeWhile_append_dropWhile (p := p) (l := cs))
  have hpos := List.length_pos_iff.mpr h
  rw [List.length_append] at hlength
  rw [List.takeWhile_append, List.dropWhile_append, if_neg (by omega),
    List.isEmpty_eq_false_iff.mpr h]
  exact ⟨rfl, rfl⟩

/-- A class with a name, after the colon and the mark of negation. -/
def classNamed? (negated : Bool) (cs : List Char) : Option (Bool × CharSet × List Char) :=
  match cs.dropWhile (· != ':') with
  | ':' :: ']' :: rest =>
    (CharSet.asciiClass? (String.ofList (cs.takeWhile (· != ':')))).map (negated, ·, rest)
  | _ => none

/-- A name behind a colon without a mark of negation is that of a class. -/
theorem asciiClass?_colon (h : ∀ ds, cs ≠ '^' :: ds) :
    asciiClass? (':' :: cs) = classNamed? false cs := by
  unfold asciiClass? classNamed?
  split
  next heq =>
    cases heq
    split
    next hpair =>
      split at hpair
      next ds => exact absurd rfl (h ds)
      next =>
        cases hpair
        rfl
  next heq => exact absurd rfl (heq cs)

/-- Without a colon there is no class with a name. -/
theorem asciiClass?_of_ne (h : ∀ ds, cs ≠ ':' :: ds) : asciiClass? cs = none := by
  unfold asciiClass?
  split
  next ds => exact absurd rfl (h ds)
  next => rfl

/-- The name of a class ends at its own colon. -/
theorem classNamed?_append (htail : ':' ∉ tail) (negated : Bool) (cs : List Char) :
    classNamed? negated (cs ++ ')' :: tail) =
      (classNamed? negated cs).map fun r => (r.1, r.2.1, r.2.2 ++ ')' :: tail) := by
  -- without a colon in the text there is none behind it either
  have hend : (')' :: tail).dropWhile (· != ':') = [] := by
    refine List.dropWhile_eq_nil_iff.mpr fun c hc => bne_iff_ne.mpr ?_
    rintro rfl
    exact htail ((List.mem_cons.mp hc).resolve_left (by decide))
  by_cases hcolon : cs.dropWhile (· != ':') = []
  · unfold classNamed?
    rw [List.dropWhile_append, hcolon, hend]
    rfl
  · obtain ⟨htake, hdrop⟩ := takeWhile_append_of_dropWhile_ne_nil hcolon (')' :: tail)
    unfold classNamed?
    rw [htake, hdrop]
    rcases cs.dropWhile (· != ':') with _ | ⟨c, _ | ⟨d, es⟩⟩
    · rfl
    · simp
    · by_cases hclose : c = ':' ∧ d = ']'
      · obtain ⟨rfl, rfl⟩ := hclose
        simp [Function.comp_def]
      · split
        next heq =>
          cases heq
          exact absurd ⟨rfl, rfl⟩ hclose
        next =>
          split
          next heq =>
            cases heq
            exact absurd ⟨rfl, rfl⟩ hclose
          next => rfl

/-- A class with a name is found in both texts or in none. -/
theorem asciiClass?_append (htail : ':' ∉ tail) (cs : List Char) :
    asciiClass? (cs ++ ')' :: tail) =
      (asciiClass? cs).map fun r => (r.1, r.2.1, r.2.2 ++ ')' :: tail) := by
  by_cases hcolon : ∃ ds, cs = ':' :: ds
  · obtain ⟨ds, rfl⟩ := hcolon
    by_cases hcaret : ∃ es, ds = '^' :: es
    · obtain ⟨es, rfl⟩ := hcaret
      exact classNamed?_append htail true es
    · have hcaret := not_exists.mp hcaret
      rw [List.cons_append, asciiClass?_colon hcaret,
        asciiClass?_colon ((Extends.refl tail ds).ne_cons (by decide) hcaret)]
      exact classNamed?_append htail false ds
  · have hcolon := not_exists.mp hcolon
    rw [asciiClass?_of_ne hcolon,
      asciiClass?_of_ne ((Extends.refl tail cs).ne_cons (by decide) hcolon)]
    rfl

/-- Behind the name of a class an end of the text is left. -/
theorem classNamed?_suffix {negated negated' : Bool} {set : CharSet}
    (h : classNamed? negated cs = some (negated', set, rest)) : rest <:+ cs := by
  have hdrop := List.dropWhile_suffix (l := cs) (· != ':')
  unfold classNamed? at h
  split at h
  next heq =>
    obtain ⟨_, -, hsome⟩ := Option.map_eq_some_iff.mp h
    cases hsome
    rw [heq] at hdrop
    exact ((List.suffix_cons _ _).trans (List.suffix_cons _ _)).trans hdrop
  next => cases h

/-- Behind a class with a name an end of the text is left. -/
theorem asciiClass?_suffix {negated : Bool} {set : CharSet}
    (h : asciiClass? cs = some (negated, set, rest)) : rest <:+ cs := by
  by_cases hcolon : ∃ ds, cs = ':' :: ds
  · obtain ⟨ds, rfl⟩ := hcolon
    by_cases hcaret : ∃ es, ds = '^' :: es
    · obtain ⟨es, rfl⟩ := hcaret
      exact (classNamed?_suffix h).trans ((List.suffix_cons _ _).trans (List.suffix_cons _ _))
    · rw [asciiClass?_colon (not_exists.mp hcaret)] at h
      exact (classNamed?_suffix h).trans (List.suffix_cons _ _)
  · rw [asciiClass?_of_ne (not_exists.mp hcolon)] at h
    cases h

/-- No class with a name comes about by what follows. -/
theorem Extends.asciiClass_eq_none (htail : ':' ∉ tail) (h : Extends tail start cs cs')
    (hnone : asciiClass? cs = none) : asciiClass? cs' = none := by
  rcases h.same with rfl | ⟨-, rfl⟩
  · rw [asciiClass?_append htail, hnone]
    rfl
  · rfl

/-- A class with a name is the same in the longer text. -/
theorem Extends.asciiClass_eq_some (htail : ':' ∉ tail) (h : Extends tail start cs cs')
    {negated : Bool} {set : CharSet} (hsome : asciiClass? cs = some (negated, set, rest)) :
    ∃ rest', asciiClass? cs' = some (negated, set, rest') ∧ Extends tail start rest rest' := by
  rcases h.same with rfl | ⟨rfl, -⟩
  · refine ⟨rest ++ ')' :: tail, ?_, (asciiClass?_suffix hsome).trans h.suffix, .inl rfl⟩
    rw [asciiClass?_append htail, hsome]
    rfl
  · cases hsome

/-- A character of a class, or an escape in it, is read up to its own end. -/
theorem extendable_readClassPrimitive (htail : '\n' ∉ tail) :
    Extendable tail (readClassPrimitive table flags) := by
  intro start cs cs' a rest h hread
  unfold readClassPrimitive at hread
  split at hread
  next => cases hread
  next ds =>
    obtain ⟨ds', rfl, hext⟩ := h.cons
    exact extendable_readEscape htail hext hread
  next c ds hbackslash =>
    obtain ⟨ds', rfl, hext⟩ := h.cons
    cases hread
    exact ⟨ds', by rw [readClassPrimitive]; exact hbackslash, hext⟩

/-- A range of a class is read up to its last character, and anything else to its own end. -/
theorem extendable_readClassItem (htail : '\n' ∉ tail) :
    Extendable tail (readClassItem table flags) := by
  intro start cs cs' a rest h hread
  obtain ⟨⟨first, ds⟩, hfirst, hread⟩ := Except.bind_eq_ok_iff.mp hread
  obtain ⟨ds', hfirst', hds⟩ := extendable_readClassPrimitive htail h hfirst
  have hskip := hds.skip flags.verbose htail
  -- the first character is read alike; what follows says whether it starts a range
  suffices hsame : ∃ rest', _ ∧ _ by
    obtain ⟨rest', hread', hrest⟩ := hsame
    exact ⟨rest', Except.bind_eq_ok_iff.mpr ⟨_, hfirst', hread'⟩, hrest⟩
  simp only at hread ⊢
  split at hread
  next => cases hread
  next after hafter =>
    rw [hafter] at hskip
    obtain ⟨after', hafter', hext⟩ := hskip.cons
    have hnext := hext.skip flags.verbose htail
    simp only [hafter']
    split at hread
    next => cases hread
    next c es hc =>
      rw [hc] at hnext
      obtain ⟨es', hes', -⟩ := hnext.cons
      rw [hes'] at hnext
      simp only [hes']
      split at hread
      next hliteral =>
        obtain ⟨set, hset, hread⟩ := Except.bind_eq_ok_iff.mp hread
        cases hread
        rw [hafter'] at hskip
        exact ⟨_, by rw [if_pos hliteral, hset]; rfl, hskip⟩
      next hrange =>
        obtain ⟨⟨last, gs⟩, hlast, hread⟩ := Except.bind_eq_ok_iff.mp hread
        obtain ⟨gs', hlast', hgs⟩ := extendable_readClassPrimitive htail hnext hlast
        obtain ⟨low, hlow, hread⟩ := Except.bind_eq_ok_iff.mp hread
        obtain ⟨high, hhigh, hread⟩ := Except.bind_eq_ok_iff.mp hread
        simp only at hread
        split at hread
        next => cases hread
        next horder =>
          cases hread
          refine ⟨gs', ?_, hgs⟩
          rw [if_neg hrange]
          refine Except.bind_eq_ok_iff.mpr ⟨_, hlast', ?_⟩
          refine Except.bind_eq_ok_iff.mpr ⟨_, hlow, ?_⟩
          refine Except.bind_eq_ok_iff.mpr ⟨_, hhigh, ?_⟩
          simp only
          rw [if_neg horder]
  next hnil hhyphen =>
    obtain ⟨set, hset, hread⟩ := Except.bind_eq_ok_iff.mp hread
    cases hread
    refine ⟨_, ?_, hskip⟩
    split
    next heq => exact absurd heq (hskip.ne_nil hnil)
    next after heq => exact absurd heq (hskip.ne_cons (by decide) hhyphen after)
    next => exact Except.bind_eq_ok_iff.mpr ⟨_, hset, rfl⟩

/-- A class is read alike from the longer text, which takes at least as much fuel. -/
theorem Extends.readClass (htail : '\n' ∉ tail) (hcolon : ':' ∉ tail) {n n' : Nat}
    {outer : List OpenClass} {cls : OpenClass} {part : ClassPart} (hn : n ≤ n')
    (h : Extends tail start cs cs')
    (hread : readClass table flags n outer cls cs = .ok (part, rest)) :
    ∃ rest', Pattern.readClass table flags n' outer cls cs' = .ok (part, rest') ∧
      Extends tail start rest rest' := by
  induction n generalizing n' outer cls cs cs' with
  | zero => cases hread
  | succ n ih =>
    obtain ⟨n', rfl⟩ : ∃ m, n' = m + 1 := Nat.exists_eq_add_one.mpr (by omega)
    replace hn := Nat.le_of_succ_le_succ hn
    have hskip := h.skip flags.verbose htail
    unfold Pattern.readClass at hread ⊢
    split at hread
    next => cases hread
    next ds hds =>
      rw [hds] at hskip
      obtain ⟨ds', hds', hext⟩ := hskip.cons
      simp only [hds']
      split at hread
      next negated set es hnamed =>
        -- a class with a name ends in the same place
        obtain ⟨es', hnamed', hes⟩ := hext.asciiClass_eq_some hcolon hnamed
        obtain ⟨set', hset, hread⟩ := Except.bind_eq_ok_iff.mp hread
        obtain ⟨rest', hread', hrest⟩ := ih hn hes hread
        exact ⟨rest', by simp only [hnamed', hset]; exact hread', hrest⟩
      next hnone =>
        -- otherwise the bracket opens a class inside this one
        obtain ⟨⟨inner, es⟩, hopen, hread⟩ := Except.bind_eq_ok_iff.mp hread
        obtain ⟨es', hopen', hes⟩ := extendable_openClass htail hext hopen
        obtain ⟨rest', hread', hrest⟩ := ih hn hes hread
        refine ⟨rest', ?_, hrest⟩
        simp only [hext.asciiClass_eq_none hcolon hnone]
        exact Except.bind_eq_ok_iff.mpr ⟨_, hopen', hread'⟩
    next ds hds =>
      rw [hds] at hskip
      obtain ⟨ds', hds', hext⟩ := hskip.cons
      simp only [hds']
      obtain ⟨closed, hclosed, hread⟩ := Except.bind_eq_ok_iff.mp hread
      -- the class that is closed is the outermost one, or part of another
      split at hread
      next =>
        cases hread
        exact ⟨ds', by rw [hclosed]; rfl, hext⟩
      next parent outer =>
        obtain ⟨rest', hread', hrest⟩ := ih hn hext hread
        exact ⟨rest', by rw [hclosed]; exact hread', hrest⟩
    next ds hds =>
      rw [hds] at hskip
      obtain ⟨ds', hds', hext⟩ := hskip.cons_cons
      simp only [hds']
      exact ih hn hext hread
    next ds hds =>
      rw [hds] at hskip
      obtain ⟨ds', hds', hext⟩ := hskip.cons_cons
      simp only [hds']
      exact ih hn hext hread
    next ds hds =>
      rw [hds] at hskip
      obtain ⟨ds', hds', hext⟩ := hskip.cons_cons
      simp only [hds']
      exact ih hn hext hread
    next hnil hopen hclose hand hminus htilde =>
      -- neither a bracket nor an operator comes first, in the longer text, too
      obtain ⟨⟨set, ds⟩, hitem, hread⟩ := Except.bind_eq_ok_iff.mp hread
      obtain ⟨ds', hitem', hds⟩ := extendable_readClassItem htail hskip hitem
      obtain ⟨rest', hread', hrest⟩ := ih hn hds hread
      refine ⟨rest', ?_, hrest⟩
      split
      next heq => exact absurd heq (hskip.ne_nil hnil)
      next es heq => exact absurd heq (hskip.ne_cons (by decide) hopen es)
      next es heq => exact absurd heq (hskip.ne_cons (by decide) hclose es)
      next es heq => exact absurd heq (hskip.ne_cons_cons (by decide) (by decide) hand es)
      next es heq => exact absurd heq (hskip.ne_cons_cons (by decide) (by decide) hminus es)
      next es heq => exact absurd heq (hskip.ne_cons_cons (by decide) (by decide) htilde es)
      next => exact Except.bind_eq_ok_iff.mpr ⟨_, hitem', hread'⟩

/-! ## Groups -/

/-- Flags are read up to the colon or the parenthesis behind them. -/
theorem extendable_readFlags (seen : List Char) (flags : MatchFlags) :
    Extendable tail (readFlags seen flags) := by
  intro start cs cs' a rest h hread
  induction cs generalizing seen flags cs' with
  | nil => cases hread
  | cons c cs ih =>
    obtain ⟨ds, rfl, hext⟩ := h.cons
    rw [readFlags] at hread ⊢
    split at hread
    next hend =>
      rw [if_pos hend]
      split at hread
      next => cases hread
      next hok =>
        cases hread
        exact ⟨ds, by rw [if_neg hok], hext⟩
    next hend =>
      rw [if_neg hend]
      split at hread
      next => cases hread
      next hseen =>
        rw [if_neg hseen]
        split at hread
        next hhyphen =>
          rw [if_pos hhyphen]
          exact ih _ _ hext hread
        next hhyphen =>
          rw [if_neg hhyphen]
          split at hread
          next =>
            exact ih _ _ hext hread
          next => cases hread

/-- The name of a group is read up to its closing bracket. -/
theorem extendable_readGroupName : Extendable tail (readGroupName flags) := by
  intro start cs cs' a rest h hread
  unfold readGroupName at hread
  split at hread
  next c ds hdrop =>
    simp only at hread
    split at hread
    next hname =>
      cases hread
      have hne : cs.dropWhile (· != '>') ≠ [] := hdrop ▸ List.cons_ne_nil _ _
      have hsuffix := hdrop ▸ List.dropWhile_suffix (l := cs) (· != '>')
      rcases h.same with rfl | ⟨rfl, -⟩
      · obtain ⟨htake', hdrop'⟩ := takeWhile_append_of_dropWhile_ne_nil hne (')' :: tail)
        refine ⟨rest ++ ')' :: tail, ?_,
          ((List.suffix_cons _ _).trans hsuffix).trans h.suffix, .inl rfl⟩
        rw [readGroupName, hdrop', hdrop, htake']
        simp only [List.cons_append, hname]
        rfl
      · cases hdrop
    next => cases hread
  next => cases hread

/-- The start of a group is read up to what stands in the group. -/
theorem extendable_readGroup (htail : '\n' ∉ tail) : Extendable tail (readGroup flags) := by
  intro start cs cs' a rest h hread
  have hskip := h.skip flags.verbose htail
  unfold readGroup at hread ⊢
  split at hread
  next => cases hread
  next => cases hread
  next => cases hread
  next => cases hread
  next ds hds =>
    -- a name behind `?P<`
    rw [hds] at hskip
    obtain ⟨es, hes, hangle⟩ := hskip.cons_cons
    obtain ⟨ds', rfl, hname⟩ := hangle.cons
    simp only [hes]
    exact extendable_readGroupName hname hread
  next ds hahead hbehind hds =>
    -- a name behind `?<`, which is not taken for a mark of looking behind
    rw [hds] at hskip
    obtain ⟨ds', hes, hname⟩ := hskip.cons_cons
    obtain ⟨rest', hread', hrest⟩ := extendable_readGroupName hname hread
    refine ⟨rest', ?_, hrest⟩
    rw [hes]
    split
    next heq => cases heq
    next heq => cases heq
    next gs heq =>
      cases heq
      exact absurd rfl (hname.ne_cons (by decide) hahead gs)
    next gs heq =>
      cases heq
      exact absurd rfl (hname.ne_cons (by decide) hbehind gs)
    next heq => cases heq
    next heq =>
      cases heq
      exact hread'
    next hangle heq =>
      cases heq
      exact absurd rfl (hangle _)
    next hquestion => exact absurd rfl (hquestion _)
  next ds hahead hnotAhead _ _ hflag hangle hds =>
    -- flags, for a group or for the rest of the one around them
    rw [hds] at hskip
    obtain ⟨ds', hes, hext⟩ := hskip.cons
    obtain ⟨⟨⟨inner, isGroup⟩, es⟩, hflags, hread⟩ := Except.bind_eq_ok_iff.mp hread
    cases hread
    obtain ⟨rest', hflags', hrest⟩ := extendable_readFlags [] flags hext hflags
    refine ⟨rest', ?_, hrest⟩
    rw [hes]
    split
    next heq =>
      cases heq
      exact absurd rfl (hext.ne_cons (by decide) hahead _)
    next heq =>
      cases heq
      exact absurd rfl (hext.ne_cons (by decide) hnotAhead _)
    next heq =>
      cases heq
      exact absurd rfl (hext.ne_cons (by decide) hangle _)
    next heq =>
      cases heq
      exact absurd rfl (hext.ne_cons (by decide) hangle _)
    next heq =>
      cases heq
      exact absurd rfl (hext.ne_cons_cons (by decide) (by decide) hflag _)
    next heq =>
      cases heq
      exact absurd rfl (hext.ne_cons (by decide) hangle _)
    next heq =>
      cases heq
      exact Except.bind_eq_ok_iff.mpr ⟨_, hflags', rfl⟩
    next hquestion => exact absurd rfl (hquestion _)
  next hquestion =>
    cases hread
    -- no mark stands behind the parenthesis, so that it opens a capturing group
    have hnot := hskip.ne_cons (by decide) hquestion
    refine ⟨_, ?_, hskip⟩
    split
    next heq => exact absurd heq (hnot _)
    next heq => exact absurd heq (hnot _)
    next heq => exact absurd heq (hnot _)
    next heq => exact absurd heq (hnot _)
    next heq => exact absurd heq (hnot _)
    next heq => exact absurd heq (hnot _)
    next heq => exact absurd heq (hnot _)
    next => rfl

/-! ## Repetitions -/

/-- The mark of a reluctant repetition is the same in the longer text. -/
theorem Extends.repetition {min : Nat} {max : Option Nat} {token : Token}
    (h : Extends tail start cs cs') (hread : readRepetition flags min max cs = (token, rest)) :
    ∃ rest', readRepetition flags min max cs' = (token, rest') ∧ Extends tail start rest rest' := by
  by_cases hlazy : ∃ ds, cs = '?' :: ds
  · obtain ⟨ds, rfl⟩ := hlazy
    obtain ⟨ds', rfl, hext⟩ := h.cons
    cases hread
    exact ⟨ds', rfl, hext⟩
  · have hlazy := not_exists.mp hlazy
    have hgreedy {cs : List Char} (hcs : ∀ ds, cs ≠ '?' :: ds) : readRepetition flags min max cs =
        (.repetition min max (!flags.swapGreed), cs) := by
      unfold readRepetition
      split
      next ds => exact absurd rfl (hcs ds)
      next => rfl
    rw [hgreedy hlazy] at hread
    cases hread
    exact ⟨cs', hgreedy (h.ne_cons (by decide) hlazy), h⟩

/-- Characters that do not include the parenthesis are dropped alike. -/
theorem Extends.dropWhile {p : Char → Bool} (hp : p ')' = false) (h : Extends tail start cs cs') :
    Extends tail start (cs.dropWhile p) (cs'.dropWhile p) := by
  refine ⟨(List.dropWhile_suffix _).trans h.suffix, ?_⟩
  rcases h.same with rfl | ⟨rfl, rfl⟩
  · rw [List.dropWhile_append]
    rcases cs.dropWhile p with _ | ⟨c, ds⟩
    · exact .inl (List.dropWhile_cons_of_neg (by rw [hp]; exact Bool.false_ne_true))
    · exact .inl rfl
  · exact .inr ⟨rfl, rfl⟩

/-- A number is read up to its last digit. -/
theorem extendable_readCount (htail : '\n' ∉ tail) : Extendable tail (readCount verbose) := by
  intro start cs cs' a rest h hread
  have hblank := h.dropWhile (p := Text.isWhitespace) (by decide)
  obtain ⟨hdigits, hrest⟩ := hblank.takeSpaced verbose Text.isAsciiDigit htail
    (.inr ⟨Nat.le_refl _, hblank.length_le⟩) (.inl rfl)
  replace hrest := hrest.dropWhile (p := Text.isWhitespace) (by decide)
  unfold readCount at hread ⊢
  simp only at hread
  simp only [hdigits]
  split at hread
  next hnone =>
    cases hread
    exact ⟨_, by rw [if_pos hnone], hrest⟩
  next hsome =>
    rw [if_neg hsome]
    split at hread
    next hsmall =>
      cases hread
      exact ⟨_, by rw [if_pos hsmall], hrest⟩
    next => cases hread

/-- The end of a counted repetition, at its closing brace. -/
def finishCounted (flags : MatchFlags) (min : Nat) (max : Option Nat) : Reader Token
  | '\x7d' :: cs =>
    if max.any (· < min) then .error .badRepetition
    else .ok (readRepetition flags min max (skipVerbose flags.verbose cs))
  | _ => .error .badRepetition

/-- A counted repetition is read up to its brace and the mark behind it. -/
theorem extendable_finishCounted (htail : '\n' ∉ tail) (min : Nat) (max : Option Nat) :
    Extendable tail (finishCounted flags min max) := by
  intro start cs cs' a rest h hread
  unfold finishCounted at hread
  split at hread
  next ds =>
    obtain ⟨ds', rfl, hext⟩ := h.cons
    split at hread
    next => cases hread
    next hbounds =>
      obtain ⟨rest', htoken, hrest⟩ :=
        (hext.skip flags.verbose htail).repetition (Except.ok.inj hread)
      exact ⟨rest', by rw [finishCounted, if_neg hbounds, htoken], hrest⟩
  next => cases hread

/-- A counted repetition is its numbers and its end. -/
theorem readCounted_eq (cs : List Char) : readCounted flags cs = (do
    let (low, cs) ← readCount flags.verbose (skipVerbose flags.verbose cs)
    match low, cs with
    | some n, ',' :: cs =>
      match skipVerbose flags.verbose cs with
      | '\x7d' :: cs => finishCounted flags n none ('\x7d' :: cs)
      | cs => do
        let (high, cs) ← readCount flags.verbose cs
        match high with
        | some m => finishCounted flags n (some m) cs
        | none => .error .badRepetition
    | some n, cs => finishCounted flags n (some n) cs
    | none, _ => .error .badRepetition) :=
  rfl

/-- A counted repetition is read up to its end. -/
theorem extendable_readCounted (htail : '\n' ∉ tail) : Extendable tail (readCounted flags) := by
  intro start cs cs' a rest h hread
  rw [readCounted_eq] at hread ⊢
  obtain ⟨⟨low, ds⟩, hlow, hread⟩ := Except.bind_eq_ok_iff.mp hread
  obtain ⟨ds', hlow', hds⟩ := extendable_readCount htail (h.skip _ htail) hlow
  suffices hsame : ∃ rest', _ ∧ _ by
    obtain ⟨rest', hread', hrest⟩ := hsame
    exact ⟨rest', Except.bind_eq_ok_iff.mpr ⟨_, hlow', hread'⟩, hrest⟩
  simp only at hread ⊢
  split at hread
  next n es =>
    obtain ⟨es', rfl, hes⟩ := hds.cons
    have hskip := hes.skip flags.verbose htail
    simp only
    split at hread
    next gs hgs =>
      rw [hgs] at hskip
      obtain ⟨gs', hgs', hclose⟩ := hskip.cons
      rw [hgs'] at hskip ⊢
      exact extendable_finishCounted htail n none hskip hread
    next hbrace =>
      obtain ⟨⟨high, gs⟩, hhigh, hread⟩ := Except.bind_eq_ok_iff.mp hread
      obtain ⟨gs', hhigh', hgs⟩ := extendable_readCount htail hskip hhigh
      simp only at hread
      split at hread
      next m =>
        obtain ⟨rest', hread', hrest⟩ := extendable_finishCounted htail n (some m) hgs hread
        refine ⟨rest', ?_, hrest⟩
        split
        next heq => exact absurd heq (hskip.ne_cons (by decide) hbrace _)
        next => exact Except.bind_eq_ok_iff.mpr ⟨_, hhigh', hread'⟩
      next => cases hread
  next n hcomma =>
    obtain ⟨rest', hread', hrest⟩ := extendable_finishCounted htail n (some n) hds hread
    refine ⟨rest', ?_, hrest⟩
    have hcomma' := hds.ne_cons (by decide) hcomma
    split
    next => exact absurd rfl (hcomma' _)
    next hn _ =>
      cases hn
      exact hread'
    next heq => cases heq
  next => cases hread

/-! ## Tokens -/

/-- The item that a primitive makes up outside of classes. -/
theorem Extends.item {primitive : Primitive} {token : Token} (h : Extends tail start cs cs')
    (hread : ((primitive.toPattern flags).map fun q => some (Token.item q, cs)) =
      .ok (some (token, rest))) :
    ∃ rest', ((primitive.toPattern flags).map fun q => some (Token.item q, cs')) =
      .ok (some (token, rest')) ∧ Extends tail start rest rest' := by
  obtain ⟨q, hq, heq⟩ := Except.map_eq_ok_iff.mp hread
  cases heq
  exact ⟨cs', Except.map_eq_ok_iff.mpr ⟨q, hq, rfl⟩, h⟩

/-- What the next token of a text is, it is in the longer text, too; and it takes a character. -/
theorem nextToken_extends (htail : '\n' ∉ tail) (hcolon : ':' ∉ tail) {token : Token}
    (h : Extends tail start cs cs') (hread : nextToken table flags cs = .ok (some (token, rest))) :
    rest.length < cs.length ∧
      ∃ rest', nextToken table flags cs' = .ok (some (token, rest')) ∧
        Extends tail start rest rest' := by
  have hskip := h.restart.skip flags.verbose htail
  have hlength := hskip.suffix.length_le
  unfold nextToken at hread ⊢
  cases hc : skipVerbose flags.verbose cs with
  | nil =>
    simp only [hc] at hread
    cases hread
  | cons c ds =>
    rw [hc] at hskip hlength
    obtain ⟨ds', hds', hext⟩ := hskip.cons
    rw [List.length_cons] at hlength
    -- one character is gone; the token is read from what is behind it
    suffices hsame : ∃ rest', _ ∧ Extends tail ds rest rest' by
      obtain ⟨rest', hread', hrest⟩ := hsame
      have hle := hrest.suffix.length_le
      exact ⟨by omega, rest', hread', h.trans (hext.trans hrest)⟩
    simp only [hds']
    simp only [hc] at hread
    replace hext := hext.restart
    split at hread
    next heq => cases heq
    next heq =>
      -- a group is opened, or flags are set
      cases heq
      obtain ⟨⟨opening, es⟩, hgroup, heq⟩ := Except.map_eq_ok_iff.mp hread
      cases heq
      obtain ⟨rest', hgroup', hrest⟩ := extendable_readGroup htail hext hgroup
      exact ⟨rest', Except.map_eq_ok_iff.mpr ⟨_, hgroup', rfl⟩, hrest⟩
    next heq =>
      cases heq
      cases hread
      exact ⟨ds', rfl, hext⟩
    next heq =>
      cases heq
      cases hread
      exact ⟨ds', rfl, hext⟩
    next heq =>
      -- a class has at least as much fuel in the longer text
      cases heq
      obtain ⟨⟨cls, es⟩, hopen, hread⟩ := Except.bind_eq_ok_iff.mp hread
      obtain ⟨⟨part, gs⟩, hclass, hread⟩ := Except.bind_eq_ok_iff.mp hread
      cases hread
      obtain ⟨es', hopen', hes⟩ := extendable_openClass htail hext hopen
      obtain ⟨rest', hclass', hrest⟩ :=
        hes.readClass htail hcolon (Nat.succ_le_succ hes.length_le) hclass
      refine ⟨rest', ?_, hrest⟩
      exact Except.bind_eq_ok_iff.mpr ⟨_, hopen', Except.bind_eq_ok_iff.mpr ⟨_, hclass', rfl⟩⟩
    next heq =>
      cases heq
      obtain ⟨rest', hagain, hrest⟩ := hext.repetition (Option.some.inj (Except.ok.inj hread))
      exact ⟨rest', congrArg (Except.ok ∘ some) hagain, hrest⟩
    next heq =>
      cases heq
      obtain ⟨rest', hagain, hrest⟩ := hext.repetition (Option.some.inj (Except.ok.inj hread))
      exact ⟨rest', congrArg (Except.ok ∘ some) hagain, hrest⟩
    next heq =>
      cases heq
      obtain ⟨rest', hagain, hrest⟩ := hext.repetition (Option.some.inj (Except.ok.inj hread))
      exact ⟨rest', congrArg (Except.ok ∘ some) hagain, hrest⟩
    next heq =>
      -- a repetition with counts
      cases heq
      obtain ⟨⟨counted, es⟩, hcounted, heq⟩ := Except.map_eq_ok_iff.mp hread
      cases heq
      obtain ⟨rest', hcounted', hrest⟩ := extendable_readCounted htail hext hcounted
      exact ⟨rest', Except.map_eq_ok_iff.mpr ⟨_, hcounted', rfl⟩, hrest⟩
    next heq =>
      -- an escape, and what it makes up
      cases heq
      obtain ⟨⟨primitive, es⟩, hescape, hread⟩ := Except.bind_eq_ok_iff.mp hread
      obtain ⟨es', hescape', hes⟩ := extendable_readEscape htail hext hescape
      obtain ⟨rest', hitem, hrest⟩ := hes.item hread
      exact ⟨rest', Except.bind_eq_ok_iff.mpr ⟨_, hescape', hitem⟩, hrest⟩
    next heq =>
      cases heq
      exact hext.item hread
    next heq =>
      cases heq
      exact hext.item hread
    next heq =>
      cases heq
      exact hext.item hread
    next heq =>
      cases heq
      split
      case h_14 heq =>
        cases heq
        exact hext.item hread
      -- In the other cases the character would be one that does not stand for itself.
      all_goals simp_all

end LayeredConfig.Pattern
