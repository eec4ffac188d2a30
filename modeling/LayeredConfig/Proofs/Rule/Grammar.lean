import LayeredConfig.Rule.Expr

/-!
# The grammar of rules

`Derives phrase ts` says that some tokens make up a phrase of the grammar, and which tree the phrase
stands for. In the order of precedence, and with repetitions written as recursion on the side from
which they associate:

* a disjunction is a conjunction, or a disjunction, `or` and a conjunction;
* a conjunction is a negation, or a conjunction, `and` and a negation;
* a negation is a comparison, or `not` and a negation;
* a comparison is an operand with any number of comparison operators and operands after it;
* an operand is a primary, or an operand with a call or a subscript after it;
* a primary is a literal, a name, or a disjunction in parentheses.

Only a name can be called. The parser is not mentioned here; only the lemmas at the end are about
the functions with which it looks at single tokens.
-/

namespace LayeredConfig.Expr

/-- A category of the grammar, with the tree that a phrase of it stands for. -/
inductive Phrase
  | disjunction (e : Expr)
  | conjunction (e : Expr)
  | negation (e : Expr)
  | comparison (e : Expr)
  /-- What follows the first operand of a comparison chain. -/
  | comparisons (rest : List (CompareOp × Expr))
  | postfixed (e : Expr)
  | arguments (args : List Expr)
  /-- At least one argument, with commas between them. -/
  | argumentList (args : List Expr)
  | primary (e : Expr)

/-- The ways in which a comparison is written: with a symbol, with `in`, or with `not in`. -/
inductive WrittenAs : CompareOp → List RuleToken → Prop
  | symbol (op : CompareOp) : WrittenAs op [.compare op]
  | isIn : WrittenAs .isIn [.name "in"]
  | notIn : WrittenAs .notIn [.name "not", .name "in"]

/-- Every comparison is written with a token. -/
theorem WrittenAs.length_pos {op : CompareOp} {ts : List RuleToken} (h : WrittenAs op ts) :
    0 < ts.length := by
  cases h <;> exact Nat.succ_pos _

/-- The words that are no names: the keywords, and the names of literals. -/
def reserved : List String :=
  ["and", "or", "not", "in", "True", "False", "None"]

/-- Some tokens make up a phrase. -/
inductive Derives : Phrase → List RuleToken → Prop
  | conjunction {e : Expr} {ts : List RuleToken} (inner : Derives (.conjunction e) ts) :
      Derives (.disjunction e) ts
  | or {left right : Expr} {ts us : List RuleToken} (first : Derives (.disjunction left) ts)
      (second : Derives (.conjunction right) us) :
      Derives (.disjunction (.or left right)) (ts ++ .name "or" :: us)
  | negation {e : Expr} {ts : List RuleToken} (inner : Derives (.negation e) ts) :
      Derives (.conjunction e) ts
  | and {left right : Expr} {ts us : List RuleToken} (first : Derives (.conjunction left) ts)
      (second : Derives (.negation right) us) :
      Derives (.conjunction (.and left right)) (ts ++ .name "and" :: us)
  | comparison {e : Expr} {ts : List RuleToken} (inner : Derives (.comparison e) ts) :
      Derives (.negation e) ts
  | not {e : Expr} {ts : List RuleToken} (inner : Derives (.negation e) ts) :
      Derives (.negation (.not e)) (.name "not" :: ts)
  | chain {first : Expr} {rest : List (CompareOp × Expr)} {ts us : List RuleToken}
      (operand : Derives (.postfixed first) ts) (others : Derives (.comparisons rest) us) :
      Derives (.comparison (ofChain first rest)) (ts ++ us)
  | noComparisons : Derives (.comparisons []) []
  | moreComparisons {op : CompareOp} {e : Expr} {rest : List (CompareOp × Expr)}
      {ops ts us : List RuleToken} (operator : WrittenAs op ops)
      (operand : Derives (.postfixed e) ts) (others : Derives (.comparisons rest) us) :
      Derives (.comparisons ((op, e) :: rest)) (ops ++ ts ++ us)
  | primary {e : Expr} {ts : List RuleToken} (inner : Derives (.primary e) ts) :
      Derives (.postfixed e) ts
  | call {callee : String} {args : List Expr} {ts us : List RuleToken}
      (target : Derives (.postfixed (.name callee)) ts) (inner : Derives (.arguments args) us) :
      Derives (.postfixed (.call callee args)) (ts ++ .openParen :: us ++ [.closeParen])
  | subscript {target index : Expr} {ts us : List RuleToken}
      (left : Derives (.postfixed target) ts) (inner : Derives (.disjunction index) us) :
      Derives (.postfixed (.subscript target index)) (ts ++ .openBracket :: us ++ [.closeBracket])
  | noArguments : Derives (.arguments []) []
  | someArguments {args : List Expr} {ts : List RuleToken}
      (list : Derives (.argumentList args) ts) : Derives (.arguments args) ts
  | lastArgument {arg : Expr} {ts : List RuleToken} (inner : Derives (.disjunction arg) ts) :
      Derives (.argumentList [arg]) ts
  | moreArguments {arg : Expr} {args : List Expr} {ts us : List RuleToken}
      (inner : Derives (.disjunction arg) ts) (others : Derives (.argumentList args) us) :
      Derives (.argumentList (arg :: args)) (ts ++ .comma :: us)
  | str (s : String) : Derives (.primary (.literal (.str s))) [.str s]
  | int (n : Nat) : Derives (.primary (.literal (.int n))) [.int n]
  | true : Derives (.primary (.literal (.bool true))) [.name "True"]
  | false : Derives (.primary (.literal (.bool false))) [.name "False"]
  | nothing : Derives (.primary (.literal .nothing)) [.name "None"]
  | name {word : String} (free : word ∉ reserved) : Derives (.primary (.name word)) [.name word]
  | parenthesised {e : Expr} {ts : List RuleToken} (inner : Derives (.disjunction e) ts) :
      Derives (.primary e) (.openParen :: ts ++ [.closeParen])

/-! ## Single tokens -/

variable {token : RuleToken} {ts rest : Tokens} {size : Nat} {what : String} {op : CompareOp}
  {word : String} {e : Expr}

/-- A token is eaten if it comes first. -/
theorem eat?_eq_some_iff : eat? token ts = some rest ↔ ∃ offset, ts = (token, offset) :: rest := by
  cases ts with
  | nil => simp [eat?]
  | cons t ts =>
    obtain ⟨t, offset⟩ := t
    simp only [eat?, Option.ite_none_right_eq_some, Option.some.injEq, List.cons.injEq,
      Prod.mk.injEq]
    constructor
    · rintro ⟨rfl, rfl⟩
      exact ⟨offset, ⟨rfl, rfl⟩, rfl⟩
    · rintro ⟨_, ⟨rfl, -⟩, rfl⟩
      exact ⟨rfl, rfl⟩

/-- A token that is expected is taken if it comes first. -/
theorem expect_eq_ok_iff :
    expect size token what ts = .ok rest ↔ ∃ offset, ts = (token, offset) :: rest := by
  rw [← eat?_eq_some_iff, expect]
  cases eat? token ts <;> simp [fail]

/-- A comparison is read exactly from one of the ways in which it is written. -/
theorem compareOp?_eq_some_iff : compareOp? ts = some (op, rest) ↔
    ∃ used, ts = used ++ rest ∧ WrittenAs op (used.map (·.1)) := by
  constructor
  · intro h
    unfold compareOp? at h
    split at h
    · cases h
      exact ⟨[_], rfl, .symbol _⟩
    · cases h
      exact ⟨[_], rfl, .isIn⟩
    · cases h
      exact ⟨[_, _], rfl, .notIn⟩
    · cases h
  · rintro ⟨used, rfl, hwritten⟩
    generalize hmap : used.map (·.1) = tokens at hwritten
    cases hwritten with
    | symbol op =>
      obtain ⟨⟨_, _⟩, _, rfl, rfl, hnil⟩ := List.map_eq_cons_iff.mp hmap
      obtain rfl := List.map_eq_nil_iff.mp hnil
      rfl
    | isIn =>
      obtain ⟨⟨_, _⟩, _, rfl, rfl, hnil⟩ := List.map_eq_cons_iff.mp hmap
      obtain rfl := List.map_eq_nil_iff.mp hnil
      rfl
    | notIn =>
      obtain ⟨⟨_, _⟩, _, rfl, rfl, hrest⟩ := List.map_eq_cons_iff.mp hmap
      obtain ⟨⟨_, _⟩, _, rfl, rfl, hnil⟩ := List.map_eq_cons_iff.mp hrest
      obtain rfl := List.map_eq_nil_iff.mp hnil
      rfl

/-- A word stands for a literal, or for itself unless it is reserved. -/
theorem ofName_eq_ok_iff : ofName word = .ok e ↔ Derives (.primary e) [.name word] := by
  constructor
  · intro h
    unfold ofName at h
    split at h
    · cases h
      exact .true
    · cases h
      exact .false
    · cases h
      exact .nothing
    · split at h
      · cases h
      · cases h
        exact .name (by simp_all [reserved])
  · intro h
    cases h with
    | true => rfl
    | false => rfl
    | nothing => rfl
    | name free =>
      simp only [reserved, List.mem_cons, List.not_mem_nil, not_or, or_false] at free
      -- the word is none of those that are literals, and not reserved
      obtain ⟨hand, hor, hnot, hin, htrue, hfalse, hnone⟩ := free
      unfold ofName
      split
      · exact absurd rfl htrue
      · exact absurd rfl hfalse
      · exact absurd rfl hnone
      · rw [if_neg (by simp [hand, hor, hnot, hin])]

end LayeredConfig.Expr
