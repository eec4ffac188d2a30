import LayeredConfig.Proofs.Except
import LayeredConfig.Proofs.Rule.Grammar

/-!
# Reading rules

The parser of rules accepts exactly what the grammar derives, and answers with the tree of the
derivation (`parse_eq_ok_iff_derives`).

* Sound: an induction on the fuel shows for all functions of the parser at once that the tokens
  which one of them takes make up the phrase that it stands for. It shows along the way that a
  function does not need more fuel than eight for each token that it takes, and a few more
  (`Takes`).
* Complete: an induction on the derivation shows that the parser, given enough fuel, takes the
  tokens of a phrase, when none of those that follow could be a part of it. Where a phrase recurs at
  its start, the parser has a loop, and the induction says how the loop goes on after the phrase.
-/

namespace LayeredConfig.Expr

variable {α : Type} {size n : Nat} {ts rest : Tokens} {e left : Expr} {args : List Expr}
  {parts : List (CompareOp × Expr)}

/-! ## Tokens that are taken -/

/-- The computation `f` takes some tokens from the front of `ts`, of which `P` holds, and answers
with `a`; it does so with any fuel from eight for each of these tokens and `cost` on. -/
def Takes (f : (fuel : Nat) → Except RuleFault (α × Tokens)) (cost : Nat)
    (P : List RuleToken → Prop) (ts rest : Tokens) (a : α) : Prop :=
  ∃ used, ts = used ++ rest ∧ P (used.map (·.1)) ∧
    ∀ m, 8 * used.length + cost ≤ m → f m = .ok (a, rest)

namespace Takes

variable {β : Type} {f g : Nat → Except RuleFault (α × Tokens)} {cost c c' : Nat}
  {P Q R : List RuleToken → Prop} {a : α} {b : β} {us : Tokens}

/-- What answers at once takes no tokens. -/
theorem nothing (hP : P []) : Takes (fun _ => .ok (a, rest)) cost P rest rest a :=
  ⟨[], rfl, hP, fun _ _ => rfl⟩

/-- A call takes what it calls takes, for more fuel. -/
theorem step (hf : ∀ m, f (m + 1) = g m) (h : Takes g c P ts rest a) (hc : c < cost) :
    Takes f cost P ts rest a := by
  obtain ⟨used, hts, hP, hfuel⟩ := h
  refine ⟨used, hts, hP, fun m hm => ?_⟩
  obtain ⟨m, rfl⟩ := Nat.exists_eq_add_one.mpr (show 0 < m by omega)
  rw [hf, hfuel m (by omega)]

/-- What holds of tokens holds of them under any weaker condition. -/
theorem imp (h : Takes f cost P ts rest a) (hPQ : ∀ used, P used → Q used) :
    Takes f cost Q ts rest a := by
  obtain ⟨used, hts, hP, hfuel⟩ := h
  exact ⟨used, hts, hPQ _ hP, hfuel⟩

/-- The tokens that are taken before pay for what comes after. -/
theorem after (taken : Tokens) (h : Takes f c (fun used => P (taken.map (·.1) ++ used)) ts rest a)
    (hc : c ≤ 8 * taken.length + cost) : Takes f cost P (taken ++ ts) rest a := by
  obtain ⟨used, rfl, hP, hfuel⟩ := h
  refine ⟨taken ++ used, (List.append_assoc ..).symm, ?_, fun m hm => ?_⟩
  · rwa [List.map_append]
  · rw [List.length_append] at hm
    exact hfuel m (by omega)

/-- The tokens that are taken after may pay for what comes before. -/
theorem bind {k : Nat → α × Tokens → Except RuleFault (β × Tokens)} (h : Takes f c P ts us a)
    (hk : Takes (k · (a, us)) c' Q us rest b)
    (hR : ∀ used used', P used → Q used' → R (used ++ used'))
    (hc : ∀ used', Q used' → c ≤ 8 * used'.length + cost) (hc' : c' ≤ cost) :
    Takes (fun m => f m >>= k m) cost R ts rest b := by
  obtain ⟨used, rfl, hP, hfuel⟩ := h
  obtain ⟨used', rfl, hQ, hfuel'⟩ := hk
  refine ⟨used ++ used', (List.append_assoc ..).symm, ?_, fun m hm => ?_⟩
  · rw [List.map_append]
    exact hR _ _ hP hQ
  · replace hc := hc _ hQ
    rw [List.length_map] at hc
    rw [List.length_append] at hm
    exact Except.bind_eq_ok_iff.mpr ⟨_, hfuel m (by omega), hfuel' m (by omega)⟩

/-- A mapped answer takes the same tokens. -/
theorem map (h : Takes f cost P ts rest a) (φ : α → β) :
    Takes (fun m => (f m).map fun r => (φ r.1, r.2)) cost P ts rest (φ a) := by
  obtain ⟨used, hts, hP, hfuel⟩ := h
  exact ⟨used, hts, hP, fun m hm => Except.map_eq_ok_iff.mpr ⟨_, hfuel m hm, rfl⟩⟩

/-- A token that is expected is taken with what follows it. -/
theorem expect {k : Nat → Tokens → Except RuleFault (α × Tokens)} {t : RuleToken} {offset : Nat}
    {text : String} (h : Takes (k · ts) c P ts rest a) (hc : c ≤ 8 + cost) :
    Takes (fun m => Expr.expect size t text ((t, offset) :: ts) >>= k m) cost
      (fun used => ∃ used', used = t :: used' ∧ P used') ((t, offset) :: ts) rest a := by
  have hread : Expr.expect size t text ((t, offset) :: ts) = .ok ts :=
    expect_eq_ok_iff.mpr ⟨offset, rfl⟩
  rw [hread]
  exact .after [(t, offset)] (h.imp fun used hused => ⟨used, rfl, hused⟩) hc

end Takes

/-- The tokens of some arguments with the parenthesis that closes them. -/
def Closed (phrase : Phrase) (used : List RuleToken) : Prop :=
  ∃ inner, used = inner ++ [.closeParen] ∧ Derives phrase inner

/-- The tokens that make one phrase of another that stands before them. -/
def Continues (before after : Phrase) (used : List RuleToken) : Prop :=
  ∀ tokens, Derives before tokens → Derives after (tokens ++ used)

/-- Without tokens a phrase stays what it is. -/
theorem Continues.nil (phrase : Phrase) : Continues phrase phrase [] := by
  intro tokens h
  rwa [List.append_nil]

/-- What each function of the parser does that succeeds with fuel `n`. -/
structure Sound (size n : Nat) : Prop where
  disjunction : ∀ {ts rest e}, disjunction size n ts = .ok (e, rest) →
    Takes (disjunction size · ts) 6 (Derives (.disjunction e)) ts rest e
  disjunctionTail : ∀ {left ts rest e}, disjunctionTail size n left ts = .ok (e, rest) →
    Takes (disjunctionTail size · left ts) 1 (Continues (.disjunction left) (.disjunction e))
      ts rest e
  conjunction : ∀ {ts rest e}, conjunction size n ts = .ok (e, rest) →
    Takes (conjunction size · ts) 5 (Derives (.conjunction e)) ts rest e
  conjunctionTail : ∀ {left ts rest e}, conjunctionTail size n left ts = .ok (e, rest) →
    Takes (conjunctionTail size · left ts) 1 (Continues (.conjunction left) (.conjunction e))
      ts rest e
  negation : ∀ {ts rest e}, negation size n ts = .ok (e, rest) →
    Takes (negation size · ts) 4 (Derives (.negation e)) ts rest e
  comparison : ∀ {ts rest e}, comparison size n ts = .ok (e, rest) →
    Takes (comparison size · ts) 3 (Derives (.comparison e)) ts rest e
  comparisonTail : ∀ {ts rest parts}, comparisonTail size n ts = .ok (parts, rest) →
    Takes (comparisonTail size · ts) 1 (Derives (.comparisons parts)) ts rest parts
  postfixed : ∀ {ts rest e}, postfixed size n ts = .ok (e, rest) →
    Takes (postfixed size · ts) 2 (Derives (.postfixed e)) ts rest e
  postfixedTail : ∀ {left ts rest e}, postfixedTail size n left ts = .ok (e, rest) →
    Takes (postfixedTail size · left ts) 1 (Continues (.postfixed left) (.postfixed e)) ts rest e
  arguments : ∀ {ts rest args}, arguments size n ts = .ok (args, rest) →
    Takes (arguments size · ts) 2 (Closed (.arguments args)) ts rest args
  argumentList : ∀ {ts rest args}, argumentList size n ts = .ok (args, rest) →
    Takes (argumentList size · ts) 1 (Closed (.argumentList args)) ts rest args
  primary : ∀ {ts rest e}, primary size n ts = .ok (e, rest) →
    Takes (primary size · ts) 1 (Derives (.primary e)) ts rest e

/-- Nothing follows an operand that could be applied to it. -/
theorem postfixedTail_of_end (hparen : ∀ offset us, ts ≠ (.openParen, offset) :: us)
    (hbracket : ∀ offset us, ts ≠ (.openBracket, offset) :: us) :
    postfixedTail size (n + 1) e ts = .ok (e, ts) := by
  rw [postfixedTail]
  · exact hparen
  · exact hbracket

namespace Sound

/-- A disjunction is a conjunction, which the loop goes on with. -/
theorem disjunction_succ (ih : Sound size n)
    (h : Expr.disjunction size (n + 1) ts = .ok (e, rest)) :
    Takes (Expr.disjunction size · ts) 6 (Derives (.disjunction e)) ts rest e := by
  rw [Expr.disjunction] at h
  obtain ⟨⟨left, ts'⟩, hleft, htail⟩ := Except.bind_eq_ok_iff.mp h
  refine .step (c := 5) (fun m => by rw [Expr.disjunction]) ?_ (by decide)
  refine (ih.conjunction hleft).bind (ih.disjunctionTail htail) ?_ (fun _ _ => by omega) (by decide)
  exact fun used used' h h' => h' used (.conjunction h)

/-- The loop of a disjunction takes an `or` and a conjunction, or ends. -/
theorem disjunctionTail_succ (ih : Sound size n)
    (h : Expr.disjunctionTail size (n + 1) left ts = .ok (e, rest)) :
    Takes (Expr.disjunctionTail size · left ts) 1
      (Continues (.disjunction left) (.disjunction e)) ts rest e := by
  rw [Expr.disjunctionTail] at h
  cases heat : eat? (.name "or") ts with
  | none =>
    rw [heat] at h
    cases h
    exact .step (c := 0) (fun m => by simp only [Expr.disjunctionTail, heat])
      (.nothing (.nil _)) (by decide)
  | some others =>
    rw [heat] at h
    obtain ⟨⟨right, ts'⟩, hright, htail⟩ := Except.bind_eq_ok_iff.mp h
    obtain ⟨offset, rfl⟩ := eat?_eq_some_iff.mp heat
    refine .step (c := 0) (fun m => by simp only [Expr.disjunctionTail, heat]; rfl) ?_ (by decide)
    -- A loop has less fuel than what it calls needs. The word that it takes makes up for that.
    refine .after (c := 5) [(.name "or", offset)] ?_ (by simp)
    refine (ih.conjunction hright).bind (ih.disjunctionTail htail) ?_ (fun _ _ => by omega)
      (by decide)
    intro used used' h h' tokens htokens
    simpa using h' _ (.or htokens h)

/-- A conjunction is a negation, which the loop goes on with. -/
theorem conjunction_succ (ih : Sound size n)
    (h : Expr.conjunction size (n + 1) ts = .ok (e, rest)) :
    Takes (Expr.conjunction size · ts) 5 (Derives (.conjunction e)) ts rest e := by
  rw [Expr.conjunction] at h
  obtain ⟨⟨left, ts'⟩, hleft, htail⟩ := Except.bind_eq_ok_iff.mp h
  refine .step (c := 4) (fun m => by rw [Expr.conjunction]) ?_ (by decide)
  refine (ih.negation hleft).bind (ih.conjunctionTail htail) ?_ (fun _ _ => by omega) (by decide)
  exact fun used used' h h' => h' used (.negation h)

/-- The loop of a conjunction takes an `and` and a negation, or ends. -/
theorem conjunctionTail_succ (ih : Sound size n)
    (h : Expr.conjunctionTail size (n + 1) left ts = .ok (e, rest)) :
    Takes (Expr.conjunctionTail size · left ts) 1
      (Continues (.conjunction left) (.conjunction e)) ts rest e := by
  rw [Expr.conjunctionTail] at h
  cases heat : eat? (.name "and") ts with
  | none =>
    rw [heat] at h
    cases h
    exact .step (c := 0) (fun m => by simp only [Expr.conjunctionTail, heat])
      (.nothing (.nil _)) (by decide)
  | some others =>
    rw [heat] at h
    obtain ⟨⟨right, ts'⟩, hright, htail⟩ := Except.bind_eq_ok_iff.mp h
    obtain ⟨offset, rfl⟩ := eat?_eq_some_iff.mp heat
    refine .step (c := 0) (fun m => by simp only [Expr.conjunctionTail, heat]; rfl) ?_ (by decide)
    refine .after (c := 4) [(.name "and", offset)] ?_ (by simp)
    refine (ih.negation hright).bind (ih.conjunctionTail htail) ?_ (fun _ _ => by omega)
      (by decide)
    intro used used' h h' tokens htokens
    simpa using h' _ (.and htokens h)

/-- A negation is a `not` with a negation, or a comparison. -/
theorem negation_succ (ih : Sound size n) (h : Expr.negation size (n + 1) ts = .ok (e, rest)) :
    Takes (Expr.negation size · ts) 4 (Derives (.negation e)) ts rest e := by
  rw [Expr.negation] at h
  cases heat : eat? (.name "not") ts with
  | none =>
    rw [heat] at h
    refine .step (c := 3) (fun m => by simp only [Expr.negation, heat]; rfl) ?_ (by decide)
    exact (ih.comparison h).imp fun used => .comparison
  | some others =>
    rw [heat] at h
    obtain ⟨⟨inner, rest⟩, hinner, heq⟩ := Except.map_eq_ok_iff.mp h
    cases heq
    obtain ⟨offset, rfl⟩ := eat?_eq_some_iff.mp heat
    refine .step (c := 3) (fun m => by simp only [Expr.negation, heat]; rfl) ?_ (by decide)
    -- the negation inside calls itself; the word before it pays for that
    refine .after (c := 4) [(.name "not", offset)] ?_ (by simp)
    exact ((ih.negation hinner).map Expr.not).imp fun used => Derives.not

/-- A comparison is an operand, with a chain behind it. -/
theorem comparison_succ (ih : Sound size n)
    (h : Expr.comparison size (n + 1) ts = .ok (e, rest)) :
    Takes (Expr.comparison size · ts) 3 (Derives (.comparison e)) ts rest e := by
  rw [Expr.comparison] at h
  obtain ⟨⟨first, ts'⟩, hfirst, h⟩ := Except.bind_eq_ok_iff.mp h
  obtain ⟨⟨parts, ts''⟩, hparts, h⟩ := Except.bind_eq_ok_iff.mp h
  cases h
  refine .step (c := 2) (fun m => by rw [Expr.comparison]) ?_ (by decide)
  refine (ih.postfixed hfirst).bind ((ih.comparisonTail hparts).map (ofChain first)) ?_
    (fun _ _ => by omega) (by decide)
  exact fun used used' => .chain

/-- The loop of a chain takes an operator and an operand, or ends. -/
theorem comparisonTail_succ (ih : Sound size n)
    (h : Expr.comparisonTail size (n + 1) ts = .ok (parts, rest)) :
    Takes (Expr.comparisonTail size · ts) 1 (Derives (.comparisons parts)) ts rest parts := by
  rw [Expr.comparisonTail] at h
  cases hop : compareOp? ts with
  | none =>
    rw [hop] at h
    cases h
    exact .step (c := 0) (fun m => by simp only [Expr.comparisonTail, hop])
      (.nothing .noComparisons) (by decide)
  | some found =>
    obtain ⟨op, others⟩ := found
    rw [hop] at h
    obtain ⟨⟨operand, ts'⟩, hoperand, h⟩ := Except.bind_eq_ok_iff.mp h
    obtain ⟨⟨more, ts''⟩, hmore, h⟩ := Except.bind_eq_ok_iff.mp h
    cases h
    obtain ⟨written, rfl, hwritten⟩ := compareOp?_eq_some_iff.mp hop
    -- the operator takes a token at least, which pays for this step
    have hpaid := hwritten.length_pos
    rw [List.length_map] at hpaid
    refine .step (c := 0) (fun m => by simp only [Expr.comparisonTail, hop]; rfl) ?_ (by decide)
    refine .after (c := 2) written ?_ (by omega)
    refine (ih.postfixed hoperand).bind ((ih.comparisonTail hmore).map ((op, operand) :: ·)) ?_
      (fun _ _ => by omega) (by decide)
    intro used used' h h'
    simpa using Derives.moreComparisons hwritten h h'

/-- An operand is a primary one, which the loop goes on with. -/
theorem postfixed_succ (ih : Sound size n)
    (h : Expr.postfixed size (n + 1) ts = .ok (e, rest)) :
    Takes (Expr.postfixed size · ts) 2 (Derives (.postfixed e)) ts rest e := by
  rw [Expr.postfixed] at h
  obtain ⟨⟨target, ts'⟩, htarget, htail⟩ := Except.bind_eq_ok_iff.mp h
  refine .step (c := 1) (fun m => by rw [Expr.postfixed]) ?_ (by decide)
  refine (ih.primary htarget).bind (ih.postfixedTail htail) ?_ (fun _ _ => by omega) (by decide)
  exact fun used used' h h' => h' used (.primary h)

/-- The loop of an operand takes arguments or a subscript, or ends. -/
theorem postfixedTail_succ (ih : Sound size n)
    (h : Expr.postfixedTail size (n + 1) left ts = .ok (e, rest)) :
    Takes (Expr.postfixedTail size · left ts) 1
      (Continues (.postfixed left) (.postfixed e)) ts rest e := by
  rw [Expr.postfixedTail.eq_def] at h
  simp only at h
  split at h
  next offset inside =>
    split at h
    next callee =>
      obtain ⟨⟨args, ts'⟩, hargs, htail⟩ := Except.bind_eq_ok_iff.mp h
      refine .step (c := 0) (fun m => rfl) ?_ (by decide)
      refine .after (c := 2) [(.openParen, offset)] ?_ (by simp)
      refine (ih.arguments hargs).bind (ih.postfixedTail htail) ?_ (fun _ _ => by omega)
        (by decide)
      rintro used used' ⟨inner, rfl, hinner⟩ h' tokens htokens
      simpa using h' _ (.call htokens hinner)
    next => cases h
  next offset inside =>
    obtain ⟨⟨index, ts'⟩, hindex, h⟩ := Except.bind_eq_ok_iff.mp h
    obtain ⟨ts'', hclose, htail⟩ := Except.bind_eq_ok_iff.mp h
    -- a subscript ends with its bracket, behind which the loop goes on
    obtain ⟨closing, rfl⟩ := expect_eq_ok_iff.mp hclose
    refine .step (c := 0) (fun m => rfl) ?_ (by decide)
    refine .after (c := 6) [(.openBracket, offset)] ?_ (by simp)
    refine (ih.disjunction hindex).bind (.expect (ih.postfixedTail htail) (by decide)) ?_
      (fun _ _ => by omega) (Nat.le_refl _)
    rintro used _ h ⟨used', rfl, h'⟩ tokens htokens
    simpa using h' _ (.subscript htokens h)
  next hparen hbracket =>
    cases h
    exact .step (c := 0) (fun m => postfixedTail_of_end hparen hbracket)
      (.nothing (.nil _)) (by decide)

/-- Arguments are a parenthesis, or a list that ends in one. -/
theorem arguments_succ (ih : Sound size n)
    (h : Expr.arguments size (n + 1) ts = .ok (args, rest)) :
    Takes (Expr.arguments size · ts) 2 (Closed (.arguments args)) ts rest args := by
  rw [Expr.arguments] at h
  cases heat : eat? .closeParen ts with
  | none =>
    rw [heat] at h
    refine .step (c := 1) (fun m => by simp only [Expr.arguments, heat]; rfl) ?_ (by decide)
    refine (ih.argumentList h).imp fun used hused => ?_
    obtain ⟨inner, rfl, hinner⟩ := hused
    exact ⟨inner, rfl, .someArguments hinner⟩
  | some others =>
    rw [heat] at h
    cases h
    obtain ⟨offset, rfl⟩ := eat?_eq_some_iff.mp heat
    refine .step (c := 0) (fun m => by simp only [Expr.arguments, heat]; rfl) ?_ (by decide)
    exact .after (c := 0) [(.closeParen, offset)] (.nothing ⟨[], rfl, .noArguments⟩) (by simp)

/-- A list of arguments is a disjunction, with a parenthesis or a comma and more arguments behind
it. -/
theorem argumentList_succ (ih : Sound size n)
    (h : Expr.argumentList size (n + 1) ts = .ok (args, rest)) :
    Takes (Expr.argumentList size · ts) 1 (Closed (.argumentList args)) ts rest args := by
  rw [Expr.argumentList] at h
  obtain ⟨⟨arg, ts'⟩, harg, hafter⟩ := Except.bind_eq_ok_iff.mp h
  refine .step (c := 0) (fun m => by rw [Expr.argumentList]) ?_ (by decide)
  -- No token comes before the argument. It is paid for by the comma or the parenthesis after it.
  cases heat : eat? .closeParen ts' with
  | none =>
    simp only [heat] at hafter
    obtain ⟨others, hcomma, hafter⟩ := Except.bind_eq_ok_iff.mp hafter
    obtain ⟨⟨more, ts''⟩, hmore, hafter⟩ := Except.bind_eq_ok_iff.mp hafter
    cases hafter
    obtain ⟨offset, rfl⟩ := expect_eq_ok_iff.mp hcomma
    refine (ih.disjunction harg).bind
      (.expect ((ih.argumentList hmore).map (arg :: ·)) (by decide)) ?_ ?_ (Nat.le_refl _)
    · rintro used _ h ⟨_, rfl, inner, rfl, hinner⟩
      exact ⟨used ++ .comma :: inner, by simp, .moreArguments h hinner⟩
    · rintro _ ⟨used', rfl, -⟩
      rw [List.length_cons]
      omega
  | some others =>
    simp only [heat] at hafter
    cases hafter
    obtain ⟨offset, rfl⟩ := eat?_eq_some_iff.mp heat
    refine (ih.disjunction harg).bind (Q := (· = [.closeParen]))
      (.after (c := 0) [(.closeParen, offset)] (.nothing rfl) (by simp)) ?_ ?_ (Nat.le_refl _)
    · rintro used _ h rfl
      exact ⟨used, rfl, .lastArgument h⟩
    · rintro _ rfl
      decide

/-- A primary operand is a literal, a name, or a disjunction in parentheses. -/
theorem primary_succ (ih : Sound size n) (h : Expr.primary size (n + 1) ts = .ok (e, rest)) :
    Takes (Expr.primary size · ts) 1 (Derives (.primary e)) ts rest e := by
  unfold Expr.primary at h
  split at h
  next => cases h
  next s offset others =>
    cases h
    exact .step (c := 0) (fun m => by rw [Expr.primary])
      (.after (c := 0) [(.str s, offset)] (.nothing (.str s)) (by simp)) (by decide)
  next k offset others =>
    cases h
    exact .step (c := 0) (fun m => by rw [Expr.primary])
      (.after (c := 0) [(.int k, offset)] (.nothing (.int k)) (by simp)) (by decide)
  next word offset others =>
    split at h
    next found hword =>
      cases h
      exact .step (c := 0) (fun m => by simp only [Expr.primary, hword])
        (.after (c := 0) [(.name word, offset)] (.nothing (ofName_eq_ok_iff.mp hword)) (by simp))
        (by decide)
    next => cases h
  next offset inside =>
    obtain ⟨⟨inner, ts'⟩, hinner, h⟩ := Except.bind_eq_ok_iff.mp h
    obtain ⟨others, hclose, h⟩ := Except.bind_eq_ok_iff.mp h
    cases h
    obtain ⟨closing, rfl⟩ := expect_eq_ok_iff.mp hclose
    refine .step (c := 0) (fun m => rfl) ?_ (by decide)
    refine .after (c := 6) [(.openParen, offset)] ?_ (by simp)
    refine (ih.disjunction hinner).bind
      (.expect (c := 0) (.nothing (P := (· = [])) rfl) (by decide)) ?_ (fun _ _ => by omega)
      (Nat.le_refl _)
    rintro used _ h ⟨_, rfl, rfl⟩
    exact .parenthesised h
  next => cases h

/-- Without fuel nothing succeeds. -/
theorem zero : Sound size 0 := by
  constructor <;> intros <;> contradiction

/-- Whatever succeeds takes tokens of its phrase, with any fuel. -/
theorem all (size n : Nat) : Sound size n := by
  induction n with
  | zero => exact .zero
  | succ n ih =>
    exact {
      disjunction := ih.disjunction_succ
      disjunctionTail := ih.disjunctionTail_succ
      conjunction := ih.conjunction_succ
      conjunctionTail := ih.conjunctionTail_succ
      negation := ih.negation_succ
      comparison := ih.comparison_succ
      comparisonTail := ih.comparisonTail_succ
      postfixed := ih.postfixed_succ
      postfixedTail := ih.postfixedTail_succ
      arguments := ih.arguments_succ
      argumentList := ih.argumentList_succ
      primary := ih.primary_succ }

end Sound

/-! ## Results with enough fuel -/

/-- With any fuel from some bound on, `f` answers with `a`. -/
def Settles {ε : Type} (f : (fuel : Nat) → Except ε α) (a : α) : Prop :=
  ∃ N, ∀ n, N ≤ n → f n = .ok a

namespace Settles

variable {ε β : Type} {f g : Nat → Except ε α} {a : α} {b : β}

/-- An answer that takes one call is settled. -/
theorem of_succ (h : ∀ n, f (n + 1) = .ok a) : Settles f a := by
  refine ⟨1, fun m hm => ?_⟩
  obtain ⟨m, rfl⟩ := Nat.exists_eq_add_one.mpr hm
  exact h m

/-- An answer is settled if what is called has settled it. -/
theorem step (hstep : ∀ n, f (n + 1) = g n) (h : Settles g a) : Settles f a := by
  obtain ⟨N, hN⟩ := h
  refine ⟨N + 1, fun m hm => ?_⟩
  obtain ⟨m, rfl⟩ := Nat.exists_eq_add_one.mpr (show 0 < m by omega)
  rw [hstep, hN m (by omega)]

/-- A chain is settled if its links are. -/
theorem bind {k : Nat → α → Except ε β} (h : Settles f a) (hk : Settles (k · a) b) :
    Settles (fun n => f n >>= k n) b := by
  obtain ⟨N, hN⟩ := h
  obtain ⟨N', hN'⟩ := hk
  refine ⟨max N N', fun n hn => ?_⟩
  exact Except.bind_eq_ok_iff.mpr ⟨a, hN n (by omega), hN' n (by omega)⟩

/-- An answer is settled by itself. -/
theorem pure : Settles (fun _ => .ok a : Nat → Except ε α) a :=
  ⟨0, fun _ _ => rfl⟩

/-- A mapped answer is settled if the answer is. -/
theorem map (h : Settles f a) (φ : α → β) : Settles (fun n => (f n).map φ) (φ a) := by
  obtain ⟨N, hN⟩ := h
  exact ⟨N, fun n hn => Except.map_eq_ok_iff.mpr ⟨a, hN n hn, rfl⟩⟩

end Settles

/-! ## Tokens with which a phrase ends -/

/-- What begins with none of these is not applied to the operand before it. -/
structure EndsOperand (rest : Tokens) : Prop where
  noCall : ∀ offset us, rest ≠ (.openParen, offset) :: us
  noSubscript : ∀ offset us, rest ≠ (.openBracket, offset) :: us

structure EndsComparison (rest : Tokens) : Prop extends EndsOperand rest where
  noOp : compareOp? rest = none

structure EndsConjunction (rest : Tokens) : Prop extends EndsComparison rest where
  noAnd : eat? (.name "and") rest = none

structure EndsDisjunction (rest : Tokens) : Prop extends EndsConjunction rest where
  noOr : eat? (.name "or") rest = none

/-- A phrase ends with the tokens. -/
theorem EndsDisjunction.nil : EndsDisjunction [] where
  noCall := nofun
  noSubscript := nofun
  noOp := rfl
  noAnd := rfl
  noOr := rfl

/-- A disjunction ends at a parenthesis that closes. -/
theorem EndsDisjunction.closeParen (offset : Nat) (us : Tokens) :
    EndsDisjunction ((.closeParen, offset) :: us) where
  noCall := nofun
  noSubscript := nofun
  noOp := rfl
  noAnd := rfl
  noOr := rfl

/-- A disjunction ends at a bracket that closes. -/
theorem EndsDisjunction.closeBracket (offset : Nat) (us : Tokens) :
    EndsDisjunction ((.closeBracket, offset) :: us) where
  noCall := nofun
  noSubscript := nofun
  noOp := rfl
  noAnd := rfl
  noOr := rfl

/-- A disjunction ends at a comma. -/
theorem EndsDisjunction.comma (offset : Nat) (us : Tokens) :
    EndsDisjunction ((.comma, offset) :: us) where
  noCall := nofun
  noSubscript := nofun
  noOp := rfl
  noAnd := rfl
  noOr := rfl

/-- A conjunction ends at an `or`. -/
theorem EndsConjunction.or (offset : Nat) (us : Tokens) :
    EndsConjunction ((.name "or", offset) :: us) where
  noCall := nofun
  noSubscript := nofun
  noOp := rfl
  noAnd := rfl

/-- A comparison ends at an `and`. -/
theorem EndsComparison.and (offset : Nat) (us : Tokens) :
    EndsComparison ((.name "and", offset) :: us) where
  noCall := nofun
  noSubscript := nofun
  noOp := rfl

/-! ## Phrases that are read -/

/-- What the parser does with the tokens `us` of a phrase in front of `rest`. A phrase that recurs
at its start leads into a loop, whose result is that of the whole. -/
def Parses (size : Nat) (us rest : Tokens) : Phrase → Prop
  | .disjunction e => EndsConjunction rest → ∀ b, Settles (disjunctionTail size · e rest) b →
      Settles (disjunction size · (us ++ rest)) b
  | .conjunction e => EndsComparison rest → ∀ b, Settles (conjunctionTail size · e rest) b →
      Settles (conjunction size · (us ++ rest)) b
  | .negation e => EndsComparison rest → Settles (negation size · (us ++ rest)) (e, rest)
  | .comparison e => EndsComparison rest → Settles (comparison size · (us ++ rest)) (e, rest)
  | .comparisons parts =>
      EndsComparison rest → Settles (comparisonTail size · (us ++ rest)) (parts, rest)
  | .postfixed e => ∀ b, Settles (postfixedTail size · e rest) b →
      Settles (postfixed size · (us ++ rest)) b
  | .arguments args => ∀ offset,
      Settles (arguments size · (us ++ (.closeParen, offset) :: rest)) (args, rest)
  | .argumentList args => ∀ offset,
      Settles (argumentList size · (us ++ (.closeParen, offset) :: rest)) (args, rest)
  | .primary e => Settles (primary size · (us ++ rest)) (e, rest)

/-- Nothing that follows the disjunction takes it further. -/
theorem Parses.disjunction {us : Tokens} (h : Parses size us rest (.disjunction e))
    (hends : EndsDisjunction rest) : Settles (Expr.disjunction size · (us ++ rest)) (e, rest) :=
  h hends.toEndsConjunction (e, rest) (.of_succ fun n => by simp only [disjunctionTail, hends.noOr])

/-- There is a first token, and it is none of these. -/
def BeginsOutside (excluded tokens : List RuleToken) : Prop :=
  ∃ t us, tokens = t :: us ∧ t ∉ excluded

/-- How tokens begin does not depend on what follows. -/
theorem BeginsOutside.append {excluded tokens : List RuleToken}
    (h : BeginsOutside excluded tokens) (others : List RuleToken) :
    BeginsOutside excluded (tokens ++ others) := by
  obtain ⟨t, us, rfl, hout⟩ := h
  exact ⟨t, us ++ others, rfl, hout⟩

/-- A token that does not come first is not eaten. -/
theorem BeginsOutside.eat?_eq_none {excluded : List RuleToken} {us : Tokens} {t : RuleToken}
    (h : BeginsOutside excluded (us.map (·.1))) (ht : t ∈ excluded) (rest : Tokens) :
    eat? t (us ++ rest) = none := by
  obtain ⟨_, _, hmap, hout⟩ := h
  obtain ⟨⟨first, offset⟩, others, rfl, rfl, -⟩ := List.map_eq_cons_iff.mp hmap
  have hne : first ≠ t := fun heq => hout (heq ▸ ht)
  exact if_neg hne

/-- How a phrase begins that has an operand first. -/
def Phrase.Begins (tokens : List RuleToken) : Phrase → Prop
  | .comparison _ | .postfixed _ | .primary _ =>
      BeginsOutside [.closeParen, .name "not"] tokens
  | .comparisons _ | .arguments _ => True
  | _ => BeginsOutside [.closeParen] tokens

/-- Phrases with an operand first begin with none of the tokens that would lead elsewhere. -/
theorem Derives.begins {phrase : Phrase} {tokens : List RuleToken} (h : Derives phrase tokens) :
    phrase.Begins tokens := by
  induction h with
  | conjunction _ ih | negation _ ih | primary _ ih | lastArgument _ ih => exact ih
  | or _ _ ih _ | and _ _ ih _ | chain _ _ ih _ | moreArguments _ _ ih _ => exact ih.append _
  | call _ _ ih _ | subscript _ _ ih _ => exact (ih.append _).append _
  | comparison _ ih =>
    obtain ⟨t, us, rfl, hout⟩ := ih
    exact ⟨t, us, rfl, fun hmem => hout (List.mem_cons.mpr (.inl (List.mem_singleton.mp hmem)))⟩
  | not _ ih => exact ⟨.name "not", _, rfl, by decide⟩
  | noComparisons | moreComparisons | noArguments | someArguments => exact trivial
  | str | int => exact ⟨_, _, rfl, by simp⟩
  | true | false | nothing => exact ⟨_, _, rfl, by decide⟩
  | name free =>
    refine ⟨_, _, rfl, ?_⟩
    simp only [reserved, List.mem_cons, List.not_mem_nil, not_or, or_false] at free
    simp [free]
  | parenthesised _ ih => exact ⟨_, _, rfl, by decide⟩

/-- What follows an operand in a comparison chain is not applied to that operand. -/
theorem Derives.endsOperand {tokens : List RuleToken} {us : Tokens}
    (h : Derives (.comparisons parts) tokens) (hmap : us.map (·.1) = tokens)
    (hrest : EndsOperand rest) : EndsOperand (us ++ rest) := by
  cases h with
  | noComparisons =>
    obtain rfl := List.map_eq_nil_iff.mp hmap
    exact hrest
  | moreComparisons operator _ _ =>
    obtain ⟨written, others, rfl, hop, -⟩ := List.map_eq_append_iff.mp hmap
    obtain ⟨written, operand, rfl, hop, -⟩ := List.map_eq_append_iff.mp hop
    cases operator with
    | symbol | isIn | notIn =>
      obtain ⟨⟨_, _⟩, _, rfl, rfl, -⟩ := List.map_eq_cons_iff.mp hop
      exact ⟨nofun, nofun⟩

namespace Parses

variable {us vs : Tokens} {offset closing : Nat} {right inner : Expr} {op : CompareOp}

/-- A conjunction is read as a disjunction. -/
theorem conjunction (h : Parses size us rest (.conjunction e)) :
    Parses size us rest (.disjunction e) := by
  intro hends b htail
  have hinner := h hends.toEndsComparison (e, rest)
    (.of_succ fun n => by simp only [conjunctionTail, hends.noAnd])
  exact .step (fun n => by rw [Expr.disjunction]) (.bind hinner htail)

/-- Two phrases with an `or` between them are read as a disjunction. -/
theorem or (hleft : Parses size us ((.name "or", offset) :: (vs ++ rest)) (.disjunction left))
    (hright : Parses size vs rest (.conjunction right)) :
    Parses size (us ++ (.name "or", offset) :: vs) rest (.disjunction (.or left right)) := by
  intro hends b htail
  have hinner := hright hends.toEndsComparison (right, rest)
    (.of_succ fun n => by simp only [conjunctionTail, hends.noAnd])
  rw [List.append_assoc]
  refine hleft (.or offset (vs ++ rest)) b ?_
  exact .step (fun n => rfl) (.bind hinner htail)

/-- A negation is read as a conjunction. -/
theorem negation (h : Parses size us rest (.negation e)) :
    Parses size us rest (.conjunction e) := by
  intro hends b htail
  exact .step (fun n => by rw [Expr.conjunction]) (.bind (h hends) htail)

/-- Two phrases with an `and` between them are read as a conjunction. -/
theorem and (hleft : Parses size us ((.name "and", offset) :: (vs ++ rest)) (.conjunction left))
    (hright : Parses size vs rest (.negation right)) :
    Parses size (us ++ (.name "and", offset) :: vs) rest (.conjunction (.and left right)) := by
  intro hends b htail
  rw [List.append_assoc]
  refine hleft (.and offset (vs ++ rest)) b ?_
  exact .step (fun n => rfl) (.bind (hright hends) htail)

/-- A comparison is read as a negation, as it does not begin with `not`. -/
theorem comparison (hbegins : BeginsOutside [.closeParen, .name "not"] (us.map (·.1)))
    (h : Parses size us rest (.comparison e)) : Parses size us rest (.negation e) := by
  intro hends
  have hnot : eat? (.name "not") (us ++ rest) = none := hbegins.eat?_eq_none (by decide) rest
  exact .step (fun n => by simp only [Expr.negation, hnot]) (h hends)

/-- A negation is read behind `not`. -/
theorem not (h : Parses size us rest (.negation e)) :
    Parses size ((.name "not", offset) :: us) rest (.negation (.not e)) := by
  intro hends
  exact .step (fun n => rfl) (.map (h hends) _)

/-- An operand with a chain behind it is read as a comparison. -/
theorem chain (hend : EndsOperand rest → EndsOperand (vs ++ rest))
    (hfirst : Parses size us (vs ++ rest) (.postfixed e))
    (hothers : Parses size vs rest (.comparisons parts)) :
    Parses size (us ++ vs) rest (.comparison (ofChain e parts)) := by
  intro hends
  have hend := hend hends.toEndsOperand
  rw [List.append_assoc]
  refine .step (fun n => by rw [Expr.comparison]) (.bind (a := (e, vs ++ rest)) ?_ ?_)
  · exact hfirst _ (.of_succ fun n => postfixedTail_of_end hend.noCall hend.noSubscript)
  · exact .bind (hothers hends) .pure

/-- An empty chain is read. -/
theorem noComparisons : Parses size [] rest (.comparisons []) := by
  intro hends
  exact .of_succ fun n => by simp only [List.nil_append, comparisonTail, hends.noOp]

/-- An operator and an operand are read in front of a chain. -/
theorem moreComparisons {written : Tokens} (hop : WrittenAs op (written.map (·.1)))
    (hend : EndsOperand rest → EndsOperand (vs ++ rest))
    (hoperand : Parses size us (vs ++ rest) (.postfixed e))
    (hothers : Parses size vs rest (.comparisons parts)) :
    Parses size (written ++ us ++ vs) rest (.comparisons ((op, e) :: parts)) := by
  intro hends
  have hend := hend hends.toEndsOperand
  -- the operator is read from its own tokens, whatever follows
  have hread : compareOp? (written ++ us ++ vs ++ rest) = some (op, us ++ (vs ++ rest)) :=
    compareOp?_eq_some_iff.mpr ⟨written, by simp, hop⟩
  refine .step (fun n => by simp only [comparisonTail, hread]; rfl)
    (.bind (a := (e, vs ++ rest)) ?_ ?_)
  · exact hoperand _ (.of_succ fun n => postfixedTail_of_end hend.noCall hend.noSubscript)
  · exact .bind (hothers hends) .pure

/-- A primary operand is read as an operand. -/
theorem primary (h : Parses size us rest (.primary e)) : Parses size us rest (.postfixed e) :=
  fun _ htail => .step (fun n => by rw [postfixed]) (.bind h htail)

/-- Arguments are read behind a name. -/
theorem call {callee : String}
    (htarget : Parses size us ((.openParen, offset) :: (vs ++ (.closeParen, closing) :: rest))
      (.postfixed (.name callee)))
    (hinner : Parses size vs rest (.arguments args)) :
    Parses size (us ++ (.openParen, offset) :: vs ++ [(.closeParen, closing)]) rest
      (.postfixed (.call callee args)) := by
  intro b htail
  have hcall := htarget b (.step (fun n => rfl) (.bind (hinner closing) htail))
  simpa using hcall

/-- A subscript is read behind an operand. -/
theorem subscript
    (htarget : Parses size us ((.openBracket, offset) :: (vs ++ (.closeBracket, closing) :: rest))
      (.postfixed left))
    (hinner : Parses size vs ((.closeBracket, closing) :: rest) (.disjunction inner)) :
    Parses size (us ++ (.openBracket, offset) :: vs ++ [(.closeBracket, closing)]) rest
      (.postfixed (.subscript left inner)) := by
  intro b htail
  have hindex := hinner.disjunction (.closeBracket closing rest)
  have hsubscript := htarget b (.step (fun n => rfl) (.bind hindex (.bind .pure htail)))
  simpa using hsubscript

/-- A parenthesis that closes is read as no arguments. -/
theorem noArguments : Parses size [] rest (.arguments []) :=
  fun _ => .of_succ fun _ => rfl

/-- A list is read as arguments, as it does not begin with the parenthesis. -/
theorem someArguments (hbegins : BeginsOutside [.closeParen] (us.map (·.1)))
    (h : Parses size us rest (.argumentList args)) : Parses size us rest (.arguments args) := by
  intro closing
  have hnone : eat? .closeParen (us ++ (.closeParen, closing) :: rest) = none :=
    hbegins.eat?_eq_none (by decide) _
  exact .step (fun n => by simp only [arguments, hnone]) (h closing)

/-- A single argument is read as a list. -/
theorem lastArgument
    (h : ∀ closing, Parses size us ((.closeParen, closing) :: rest) (.disjunction e)) :
    Parses size us rest (.argumentList [e]) := by
  intro closing
  have harg := (h closing).disjunction (.closeParen closing rest)
  exact .step (fun n => by rw [argumentList]) (.bind harg .pure)

/-- An argument and a comma are read in front of a list. -/
theorem moreArguments
    (h : ∀ closing, Parses size us ((.comma, offset) :: (vs ++ (.closeParen, closing) :: rest))
      (.disjunction e))
    (hothers : Parses size vs rest (.argumentList args)) :
    Parses size (us ++ (.comma, offset) :: vs) rest (.argumentList (e :: args)) := by
  intro closing
  have harg := (h closing).disjunction (.comma offset _)
  rw [List.append_assoc]
  refine .step (fun n => by rw [argumentList]; rfl) (.bind harg ?_)
  exact .bind .pure (.bind (hothers closing) .pure)

/-- A word is read as what it stands for. -/
theorem name {word : String} (h : ofName word = .ok e) :
    Parses size [(.name word, offset)] rest (.primary e) :=
  .of_succ fun n => by simp only [List.singleton_append, Expr.primary, h]

/-- A disjunction in parentheses is read as a primary operand. -/
theorem parenthesised (h : Parses size us ((.closeParen, closing) :: rest) (.disjunction e)) :
    Parses size ((.openParen, offset) :: us ++ [(.closeParen, closing)]) rest (.primary e) := by
  have hinner := h.disjunction (.closeParen closing rest)
  have hwhole : Settles
      (Expr.primary size · ((.openParen, offset) :: (us ++ (.closeParen, closing) :: rest)))
      (e, rest) :=
    .step (fun n => rfl) (.bind hinner (.bind .pure .pure))
  simpa [Parses] using hwhole

end Parses

/-- The parser takes every phrase of the grammar, whatever may follow it. -/
theorem Derives.parses {phrase : Phrase} {tokens : List RuleToken} (h : Derives phrase tokens) :
    ∀ {us : Tokens}, us.map (·.1) = tokens → ∀ rest, Parses size us rest phrase := by
  induction h with
  | conjunction _ ih => exact fun hmap rest => .conjunction (ih hmap rest)
  | negation _ ih => exact fun hmap rest => .negation (ih hmap rest)
  | comparison inner ih => exact fun hmap rest => .comparison (hmap ▸ inner.begins) (ih hmap rest)
  | primary _ ih => exact fun hmap rest => .primary (ih hmap rest)
  | someArguments list ih =>
    exact fun hmap rest => .someArguments (hmap ▸ list.begins) (ih hmap rest)
  | lastArgument _ ih => exact fun hmap rest => .lastArgument fun _ => ih hmap _
  | or _ _ ih ih' =>
    intro us hmap rest
    obtain ⟨us, _, rfl, hleft, hothers⟩ := List.map_eq_append_iff.mp hmap
    obtain ⟨⟨_, offset⟩, vs, rfl, rfl, hright⟩ := List.map_eq_cons_iff.mp hothers
    exact .or (ih hleft _) (ih' hright rest)
  | and _ _ ih ih' =>
    intro us hmap rest
    obtain ⟨us, _, rfl, hleft, hothers⟩ := List.map_eq_append_iff.mp hmap
    obtain ⟨⟨_, offset⟩, vs, rfl, rfl, hright⟩ := List.map_eq_cons_iff.mp hothers
    exact .and (ih hleft _) (ih' hright rest)
  | moreArguments _ _ ih ih' =>
    intro us hmap rest
    obtain ⟨us, _, rfl, hfirst, hcomma⟩ := List.map_eq_append_iff.mp hmap
    obtain ⟨⟨_, offset⟩, vs, rfl, rfl, hothers⟩ := List.map_eq_cons_iff.mp hcomma
    exact .moreArguments (fun _ => ih hfirst _) (ih' hothers rest)
  | not _ ih =>
    intro us hmap rest
    obtain ⟨⟨_, offset⟩, us, rfl, rfl, hinner⟩ := List.map_eq_cons_iff.mp hmap
    exact .not (ih hinner rest)
  | chain _ others ih ih' =>
    intro us hmap rest
    obtain ⟨us, vs, rfl, hfirst, hothers⟩ := List.map_eq_append_iff.mp hmap
    exact .chain (others.endsOperand hothers) (ih hfirst _) (ih' hothers rest)
  | noComparisons =>
    intro us hmap rest
    obtain rfl := List.map_eq_nil_iff.mp hmap
    exact .noComparisons
  | moreComparisons operator _ others ih ih' =>
    intro us hmap rest
    obtain ⟨_, vs, rfl, hfirst, hothers⟩ := List.map_eq_append_iff.mp hmap
    obtain ⟨written, us, rfl, rfl, hoperand⟩ := List.map_eq_append_iff.mp hfirst
    exact .moreComparisons operator (others.endsOperand hothers) (ih hoperand _) (ih' hothers rest)
  | call _ _ ih ih' =>
    intro us hmap rest
    obtain ⟨_, _, rfl, happlied, hlast⟩ := List.map_eq_append_iff.mp hmap
    obtain ⟨us, _, rfl, htarget, hopen⟩ := List.map_eq_append_iff.mp happlied
    obtain ⟨⟨_, offset⟩, vs, rfl, rfl, hinner⟩ := List.map_eq_cons_iff.mp hopen
    obtain ⟨⟨_, closing⟩, rfl, rfl⟩ := List.map_eq_singleton_iff.mp hlast
    exact .call (ih htarget _) (ih' hinner rest)
  | subscript _ _ ih ih' =>
    intro us hmap rest
    obtain ⟨_, _, rfl, happlied, hlast⟩ := List.map_eq_append_iff.mp hmap
    obtain ⟨us, _, rfl, htarget, hopen⟩ := List.map_eq_append_iff.mp happlied
    obtain ⟨⟨_, offset⟩, vs, rfl, rfl, hinner⟩ := List.map_eq_cons_iff.mp hopen
    obtain ⟨⟨_, closing⟩, rfl, rfl⟩ := List.map_eq_singleton_iff.mp hlast
    exact .subscript (ih htarget _) (ih' hinner _)
  | parenthesised _ ih =>
    intro us hmap rest
    obtain ⟨_, _, rfl, hopen, hlast⟩ := List.map_eq_append_iff.mp hmap
    obtain ⟨⟨_, offset⟩, us, rfl, rfl, hinner⟩ := List.map_eq_cons_iff.mp hopen
    obtain ⟨⟨_, closing⟩, rfl, rfl⟩ := List.map_eq_singleton_iff.mp hlast
    exact .parenthesised (ih hinner _)
  | noArguments =>
    intro us hmap rest
    obtain rfl := List.map_eq_nil_iff.mp hmap
    exact .noArguments
  | str | int =>
    intro us hmap rest
    obtain ⟨⟨_, offset⟩, rfl, rfl⟩ := List.map_eq_singleton_iff.mp hmap
    exact .of_succ fun _ => rfl
  | true | false | nothing =>
    intro us hmap rest
    obtain ⟨⟨_, offset⟩, rfl, rfl⟩ := List.map_eq_singleton_iff.mp hmap
    exact .name rfl
  | name free =>
    intro us hmap rest
    obtain ⟨⟨_, offset⟩, rfl, rfl⟩ := List.map_eq_singleton_iff.mp hmap
    exact .name (ofName_eq_ok_iff.mpr (.name free))

/-! ## The parser and the grammar -/

/-- A rule that is read is derived by the grammar. -/
theorem derives_of_parse {ts : Tokens} (h : parse size ts = .ok e) :
    Derives (.disjunction e) (ts.map (·.1)) := by
  obtain ⟨⟨found, rest⟩, hread, hend⟩ := Except.bind_eq_ok_iff.mp h
  obtain ⟨hempty, heq⟩ : rest.isEmpty ∧ found = e := by
    simp only at hend
    split at hend
    next hempty => exact ⟨hempty, Except.ok.inj hend⟩
    next => cases hend
  obtain rfl := List.isEmpty_iff.mp hempty
  obtain ⟨used, rfl, hderives, -⟩ := (Sound.all size _).disjunction hread
  rwa [List.append_nil, ← heq]

/-- A derivation needs no more fuel than there is for its tokens. -/
theorem parse_of_derives (size : Nat) {ts : Tokens}
    (h : Derives (.disjunction e) (ts.map (·.1))) : parse size ts = .ok e := by
  have hparses : Parses size ts [] (.disjunction e) := h.parses rfl []
  have hsettles := hparses.disjunction .nil
  rw [List.append_nil] at hsettles
  -- With some fuel it is read, and what is read with any fuel needs no more than its tokens allow.
  obtain ⟨N, hN⟩ := hsettles
  obtain ⟨used, heq, -, hfuel⟩ := (Sound.all size N).disjunction (hN N Nat.le.refl)
  rw [List.append_nil] at heq
  subst heq
  have hread := hfuel (fuelFor ts) (by unfold fuelFor; omega)
  exact Except.bind_eq_ok_iff.mpr ⟨_, hread, rfl⟩

/-- The parser accepts exactly the sequences of tokens that make up a rule of the grammar, with the
tree of the derivation, and no sequence has two trees. -/
theorem parse_eq_ok_iff_derives :
    (∀ size ts e, parse size ts = .ok e ↔ Derives (.disjunction e) (ts.map (·.1))) ∧
      ∀ tokens e e', Derives (.disjunction e) tokens → Derives (.disjunction e') tokens →
        e = e' := by
  refine ⟨fun size ts e => ⟨derives_of_parse, parse_of_derives size⟩, fun tokens e e' h h' => ?_⟩
  have hplaced : (tokens.map fun token => (token, 0)).map (·.1) = tokens := by
    rw [List.map_map, Function.comp_def, List.map_id']
  rw [← hplaced] at h h'
  have hsame : Except.ok e = Except.ok e' :=
    (parse_of_derives 0 h).symm.trans (parse_of_derives 0 h')
  exact Except.ok.inj hsame

end LayeredConfig.Expr
