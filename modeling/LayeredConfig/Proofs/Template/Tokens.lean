import LayeredConfig.Proofs.Text.Replace
import LayeredConfig.Proofs.Text.SplitOn
import LayeredConfig.Proofs.Template.Escape

/-!
# The references in a raw value

`Tokenized` says where the references of a raw value stand, without a scan: from left to right,
each one as early as it can be after the one before it. Every value has them in exactly one way
(`exists_tokenized`, `Tokenized.unique`), and it is read as the literal spans between them and the
paths in them. The first path with an empty key is the one that is reported.
-/

namespace LayeredConfig

namespace Template

variable {read rest span span' body body' after after' last last' : List Char} {c : Char}
  {tokens tokens' : List (List Char × List Char)}

/-! ## Where references stand -/

/-- A reference stands behind `span` in what is left of a raw value: `(!`, a body that is not empty
and has no `)` in it, and `)`. The character in front of it, which may be the last one that has been
`read`, is not another `(`. -/
structure TokenIn (read rest span body after : List Char) : Prop where
  split : rest = span ++ '(' :: '!' :: (body ++ ')' :: after)
  nonempty : body ≠ []
  closed_first : ')' ∉ body
  unescaped : (read ++ span).getLast? ≠ some '('

/-- No reference starts among the next `n` characters. -/
def IsLiteral (n : Nat) (read rest : List Char) : Prop :=
  ∀ span body after, TokenIn read rest span body after → n ≤ span.length

/-- The reference that starts leftmost. -/
structure FirstTokenIn (read rest span body after : List Char) : Prop
    extends TokenIn read rest span body after where
  first : IsLiteral span.length read rest

/-- All references in what is left of a raw value after the text `read`, each with the literal span
in front of it, and the span behind the last one. The search goes on behind the `)` of a
reference. -/
inductive Tokenized : (read rest : List Char) → (tokens : List (List Char × List Char)) →
    (last : List Char) → Prop
  | done {read rest : List Char} (none : ∀ span body after, ¬ TokenIn read rest span body after) :
      Tokenized read rest [] rest
  | next {read rest span body after last : List Char} {tokens : List (List Char × List Char)}
      (first : FirstTokenIn read rest span body after)
      (others : Tokenized (read ++ span ++ '(' :: '!' :: body ++ [')']) after tokens last) :
      Tokenized read rest ((span, body) :: tokens) last

/-- No reference stands in an empty text. -/
theorem not_tokenIn_nil : ¬ TokenIn read [] span body after := by
  intro h
  have hnil := h.split
  simp at hnil

/-- A reference that does not start at once stands in the rest of the text. -/
theorem tokenIn_cons_iff :
    TokenIn read (c :: rest) (c :: span) body after ↔
      TokenIn (read ++ [c]) rest span body after := by
  have hread : read ++ [c] ++ span = read ++ c :: span := by
    rw [List.append_assoc, List.singleton_append]
  constructor
  · intro h
    exact ⟨(List.cons.inj h.split).2, h.nonempty, h.closed_first, hread ▸ h.unescaped⟩
  · intro h
    refine ⟨?_, h.nonempty, h.closed_first, hread ▸ h.unescaped⟩
    rw [h.split, List.cons_append]

/-- A character does not start a reference if it is no opening parenthesis, if one stands in front
of it, or if no exclamation mark follows. -/
theorem not_tokenIn_here (h : c = '(' → read.getLast? = some '(' ∨ rest.head? ≠ some '!') :
    ¬ TokenIn read (c :: rest) [] body after := by
  intro hhere
  obtain ⟨rfl, rfl⟩ := List.cons.inj hhere.split
  have hread := hhere.unescaped
  rw [List.append_nil] at hread
  rcases h rfl with hparen | hbang
  · exact hread hparen
  · exact hbang rfl

/-- A reference with text in front of it stands in what follows the first character. -/
theorem TokenIn.of_cons (h : TokenIn read (c :: rest) span body after) (hspan : span ≠ []) :
    ∃ span', span = c :: span' ∧ TokenIn (read ++ [c]) rest span' body after := by
  obtain ⟨c', span', rfl⟩ := List.exists_cons_of_ne_nil hspan
  obtain ⟨rfl, -⟩ := List.cons.inj h.split
  exact ⟨span', rfl, tokenIn_cons_iff.mp h⟩

/-- One more character is literal if no reference starts at it. -/
theorem IsLiteral.cons {n : Nat} (hhere : ∀ body after, ¬ TokenIn read (c :: rest) [] body after)
    (h : IsLiteral n (read ++ [c]) rest) : IsLiteral (n + 1) read (c :: rest) := by
  intro span body after htoken
  have hspan : span ≠ [] := by
    rintro rfl
    exact hhere body after htoken
  obtain ⟨span', rfl, htoken'⟩ := htoken.of_cons hspan
  exact Nat.succ_le_succ (h span' body after htoken')

/-- A text has no reference if none starts at any of its characters. -/
theorem not_tokenIn_of_isLiteral (h : IsLiteral rest.length read rest) :
    ¬ TokenIn read rest span body after := by
  intro htoken
  have hle := h span body after htoken
  rw [htoken.split, List.length_append, List.length_cons] at hle
  omega

/-- The leftmost reference stays so when a character in front of it is read. -/
theorem FirstTokenIn.of_cons (h : FirstTokenIn read (c :: rest) (c :: span) body after) :
    FirstTokenIn (read ++ [c]) rest span body after := by
  refine ⟨tokenIn_cons_iff.mp h.toTokenIn, fun span' body' after' h' => ?_⟩
  have hle := h.first (c :: span') body' after' (tokenIn_cons_iff.mpr h')
  simpa using hle

/-- If there is a reference, there is one that starts leftmost. -/
theorem exists_firstTokenIn (read rest : List Char) :
    (∀ span body after, ¬ TokenIn read rest span body after) ∨
      ∃ span body after, FirstTokenIn read rest span body after := by
  induction rest generalizing read with
  | nil => exact Or.inl fun _ _ _ => not_tokenIn_nil
  | cons c rest ih =>
    -- a reference that starts here is leftmost, and so is the leftmost one of the rest if none does
    by_cases hhere : ∃ body after, TokenIn read (c :: rest) [] body after
    · obtain ⟨body, after, h⟩ := hhere
      exact Or.inr ⟨[], body, after, h, fun _ _ _ _ => Nat.zero_le _⟩
    · have hno : ∀ body after, ¬ TokenIn read (c :: rest) [] body after :=
        fun body after h => hhere ⟨body, after, h⟩
      rcases ih (read ++ [c]) with hnone | ⟨span, body, after, h⟩
      · left
        intro span body after h
        cases span with
        | nil => exact hno body after h
        | cons c' span =>
          obtain ⟨span', -, h'⟩ := h.of_cons (List.cons_ne_nil c' span)
          exact hnone span' body after h'
      · exact Or.inr ⟨c :: span, body, after, tokenIn_cons_iff.mpr h.toTokenIn, h.first.cons hno⟩

/-- The search goes on in a shorter text. -/
theorem TokenIn.length_after_lt (h : TokenIn read rest span body after) :
    after.length < rest.length := by
  rw [h.split]
  simp only [List.length_append, List.length_cons]
  omega

/-- Every raw value has its references in some way. -/
theorem exists_tokenized (read rest : List Char) :
    ∃ tokens last, Tokenized read rest tokens last := by
  rcases exists_firstTokenIn read rest with hnone | ⟨span, body, after, h⟩
  · exact ⟨[], rest, .done hnone⟩
  · have := h.length_after_lt
    obtain ⟨tokens, last, hothers⟩ :=
      exists_tokenized (read ++ span ++ '(' :: '!' :: body ++ [')']) after
    exact ⟨(span, body) :: tokens, last, .next h hothers⟩
termination_by rest.length

/-- The body of a reference ends at the first `)`. -/
theorem takeWhile_body (h : ')' ∉ body) (after : List Char) :
    (body ++ ')' :: after).takeWhile (· != ')') = body := by
  have hbody : ∀ c ∈ body, (c != ')') = true := by
    intro c hc
    rw [bne_iff_ne]
    rintro rfl
    exact h hc
  rw [List.takeWhile_append_of_pos hbody, List.takeWhile_cons_of_neg (by simp), List.append_nil]

/-- Two references that start at the same place are the same: the first `)` ends both. -/
theorem FirstTokenIn.unique (h : FirstTokenIn read rest span body after)
    (h' : FirstTokenIn read rest span' body' after') :
    span = span' ∧ body = body' ∧ after = after' := by
  -- each of them is leftmost, so they start at the same place
  have hlength := Nat.le_antisymm (h.first _ _ _ h'.toTokenIn) (h'.first _ _ _ h.toTokenIn)
  obtain ⟨rfl, htail⟩ := List.append_inj (h.split.symm.trans h'.split) hlength
  have hbodies : body ++ ')' :: after = body' ++ ')' :: after' := by simpa using htail
  obtain rfl : body = body' := by
    have htake := congrArg (List.takeWhile (· != ')')) hbodies
    rwa [takeWhile_body h.closed_first, takeWhile_body h'.closed_first] at htake
  exact ⟨rfl, rfl, by simpa using hbodies⟩

/-- There is one way only in which a raw value has its references. -/
theorem Tokenized.unique (h : Tokenized read rest tokens last)
    (h' : Tokenized read rest tokens' last') : tokens = tokens' ∧ last = last' := by
  induction h generalizing tokens' last' with
  | done none =>
    cases h' with
    | done none' => exact ⟨rfl, rfl⟩
    | next first' others' => exact absurd first'.toTokenIn (none _ _ _)
  | next first others ih =>
    cases h' with
    | done none' => exact absurd first.toTokenIn (none' _ _ _)
    | next first' others' =>
      obtain ⟨rfl, rfl, rfl⟩ := first.unique first'
      obtain ⟨rfl, rfl⟩ := ih others'
      exact ⟨rfl, rfl⟩

/-! ## What the scan finds -/

/-- The spans of a text that is all literal. -/
def literalSpans (cs : List Char) : List Span :=
  if cs = [] then [] else [.literal cs]

/-- A literal character makes a literal text longer. -/
theorem consLiteral_literalSpans (c : Char) (cs : List Char) :
    consLiteral c (literalSpans cs) = literalSpans (c :: cs) := by
  cases cs <;> rfl

/-- A character is literal if it does not open a reference. -/
theorem scan_text_cons {afterParen : Bool} {c : Char} {cs : List Char}
    (h : c = '(' → afterParen = false → ∀ rest, cs ≠ '!' :: rest) :
    scan (.text afterParen) (c :: cs) = consLiteral c (scan (.text (c = '(')) cs) := by
  rw [scan]
  rintro rest rfl rfl rfl
  exact h rfl rfl rest rfl

/-- Whether the text that has been read ends in an opening parenthesis. -/
def endsInParen (read : List Char) : Bool :=
  read.getLast? == some '('

/-- The spans of a raw value with the given references. -/
def spansOf : (tokens : List (List Char × List Char)) → (last : List Char) → List Span
  | [], last => literalSpans last
  | (span, body) :: tokens, last => literalSpans span ++ .reference body :: spansOf tokens last

/-- The last character says whether a text ends in an opening parenthesis. -/
theorem endsInParen_concat (read : List Char) (c : Char) :
    endsInParen (read ++ [c]) = decide (c = '(') := by
  rw [endsInParen, List.getLast?_concat, Bool.eq_iff_iff]
  simp

theorem consLiteral_literalSpans_append (c : Char) (cs body : List Char) (spans : List Span) :
    consLiteral c (literalSpans cs ++ .reference body :: spans) =
      literalSpans (c :: cs) ++ .reference body :: spans := by
  cases cs <;> rfl

/-- The scan leaves the body of a reference at its first `)`. -/
theorem scan_body (h : ')' ∉ body) (after : List Char) :
    scan .body (body ++ ')' :: after) = scan (.text false) after := by
  induction body with
  | nil => rfl
  | cons c body ih =>
    rw [List.mem_cons, not_or] at h
    rw [List.cons_append, scan, if_neg (Ne.symm h.1), ih h.2]

/-- A body that is closed and not empty stands in front of the first `)`. -/
theorem closes_iff {cs : List Char} :
    closes cs = true ↔ ∃ body after, cs = body ++ ')' :: after ∧ body ≠ [] ∧ ')' ∉ body := by
  rw [closes, Bool.and_eq_true, bne_iff_ne, List.contains_iff_mem]
  constructor
  · rintro ⟨hhead, hmem⟩
    obtain ⟨body, after, rfl, hbody⟩ := List.eq_append_cons_of_mem hmem
    refine ⟨body, after, rfl, ?_, hbody⟩
    rintro rfl
    exact hhead rfl
  · rintro ⟨body, after, rfl, hne, hbody⟩
    obtain ⟨c, body, rfl⟩ := List.exists_cons_of_ne_nil hne
    refine ⟨fun hhead => hbody ?_, List.mem_append_right _ List.mem_cons_self⟩
    obtain rfl := Option.some.inj hhead
    exact List.mem_cons_self

/-- Where a reference stands, it is found. -/
theorem scan_token (hne : body ≠ []) (h : ')' ∉ body) (after : List Char) :
    scan (.text false) ('(' :: '!' :: (body ++ ')' :: after)) =
      .reference body :: scan (.text false) after := by
  rw [scan, if_pos (closes_iff.mpr ⟨body, after, rfl, hne, h⟩), takeWhile_body h, scan_body h]

/-- Where no reference stands, the next character is literal. -/
theorem scan_char (h : ∀ body after, ¬ TokenIn read (c :: rest) [] body after) :
    scan (.text (endsInParen read)) (c :: rest) =
      consLiteral c (scan (.text (endsInParen (read ++ [c]))) rest) := by
  rw [endsInParen_concat]
  by_cases hopen : c = '(' ∧ endsInParen read = false ∧ ∃ rest', rest = '!' :: rest'
  · obtain ⟨rfl, hread, rest', rfl⟩ := hopen
    have hcloses : closes rest' ≠ true := by
      intro hcloses
      obtain ⟨body, after, rfl, hne, hbody⟩ := closes_iff.mp hcloses
      refine h body after ⟨rfl, hne, hbody, ?_⟩
      rw [List.append_nil]
      simpa [endsInParen] using hread
    -- the scan takes `(!` in one step, and after a parenthesis it takes `!` alone just as well
    rw [hread, scan, if_neg hcloses, scan_text_cons (by simp)]
    rfl
  · refine scan_text_cons ?_
    rintro rfl hread rest' rfl
    exact hopen ⟨rfl, hread, rest', rfl⟩

/-- Where there is no reference, the scan finds one literal span. -/
theorem scan_of_forall_not_tokenIn (h : ∀ span body after, ¬ TokenIn read rest span body after) :
    scan (.text (endsInParen read)) rest = literalSpans rest := by
  induction rest generalizing read with
  | nil => rfl
  | cons c rest ih =>
    have hrest : ∀ span body after, ¬ TokenIn (read ++ [c]) rest span body after :=
      fun span body after h' => h (c :: span) body after (tokenIn_cons_iff.mpr h')
    rw [scan_char (h []), ih hrest, consLiteral_literalSpans]

/-- The scan finds the leftmost reference, and goes on behind it. -/
theorem scan_of_firstTokenIn (h : FirstTokenIn read rest span body after) :
    scan (.text (endsInParen read)) rest =
      literalSpans span ++ .reference body :: scan (.text false) after := by
  induction span generalizing read rest with
  | nil =>
    have hread : endsInParen read = false := by
      simpa [endsInParen] using h.unescaped
    rw [h.split, hread]
    exact scan_token h.nonempty h.closed_first after
  | cons c span ih =>
    obtain ⟨rest, rfl⟩ : ∃ rest', rest = c :: rest' := ⟨_, h.split⟩
    have hno : ∀ body' after', ¬ TokenIn read (c :: rest) [] body' after' := by
      intro body' after' h'
      exact absurd (h.first [] body' after' h') (Nat.not_succ_le_zero _)
    rw [scan_char hno, ih h.of_cons, consLiteral_literalSpans_append]

/-- The scan finds the references and the spans between them. -/
theorem scan_of_tokenized (h : Tokenized read rest tokens last) :
    scan (.text (endsInParen read)) rest = spansOf tokens last := by
  induction h with
  | done none => exact scan_of_forall_not_tokenIn none
  | next first others ih =>
    -- what has been read ends in the `)` of the reference, so the next one may start at once
    rw [endsInParen_concat] at ih
    rw [scan_of_firstTokenIn first, spansOf, ← ih]
    rfl

/-! ## What is read -/

/-- The keys in the body of a reference. At most one leading colon is dropped. -/
def keysOf (body : List Char) : List (List Char) :=
  Text.splitOn ':' (if body.head? = some ':' then body.tail else body)

/-- Some key in the body of a reference is empty. -/
def HasEmptyKey (body : List Char) : Prop :=
  [] ∈ keysOf body

instance : DecidablePred HasEmptyKey := fun body =>
  inferInstanceAs (Decidable ([] ∈ keysOf body))

/-- The reference with a given body. -/
def referenceOf (body : List Char) : Reference :=
  { absolute := decide (body.head? = some ':'), segments := (keysOf body).map String.ofList }

/-- The literal for a span, in which `((!` stands for `(!`. An empty span has none. -/
def literalOf (span : List Char) : List Fragment :=
  if span = [] then []
  else [.literal (String.ofList (Text.replaceAll ['(', '(', '!'] ['(', '!'] span))]

/-- The fragments of a raw value with the given references. -/
def fragmentsOf : (tokens : List (List Char × List Char)) → (last : List Char) → List Fragment
  | [], last => literalOf last
  | (span, body) :: tokens, last =>
    literalOf span ++ .reference (referenceOf body) :: fragmentsOf tokens last

theorem splitOn_colon (cs : List Char) : Text.splitOn ':' (':' :: cs) = [] :: Text.splitOn ':' cs :=
  Text.splitOn_append List.not_mem_nil cs

/-- The first piece of a body is empty if there is a colon in front. -/
theorem head?_splitOn_body (hne : body ≠ []) :
    ((Text.splitOn ':' body).head? == some []) = decide (body.head? = some ':') := by
  obtain ⟨c, cs, rfl⟩ := List.exists_cons_of_ne_nil hne
  by_cases hc : c = ':'
  · subst hc
    rw [splitOn_colon]
    rfl
  · obtain ⟨piece, pieces, hcs⟩ := List.exists_cons_of_ne_nil (Text.splitOn_ne_nil ':' cs)
    rw [Text.splitOn, hcs]
    simp [hc]

/-- Dropping the leading colon drops the empty piece in front of it. -/
theorem keysOf_eq (body : List Char) :
    keysOf body =
      if body.head? = some ':' then (Text.splitOn ':' body).tail else Text.splitOn ':' body := by
  rw [keysOf]
  split
  · rename_i hhead
    obtain ⟨cs, rfl⟩ := List.head?_eq_some_iff.mp hhead
    rw [splitOn_colon]
    rfl
  · rfl

/-- The path in a body is read as the reference with its keys, unless one of them is empty. -/
theorem parse_body (body : List Char) :
    Reference.parse (String.ofList body) =
      if HasEmptyKey body then .error { path := String.ofList body }
      else .ok (referenceOf body) := by
  by_cases hne : body = []
  · subst hne
    rfl
  · have hkeys : keysOf body ≠ [] := Text.splitOn_ne_nil ':' _
    have hempty : ((keysOf body).isEmpty || (keysOf body).any List.isEmpty) = true ↔
        HasEmptyKey body := by
      simp [HasEmptyKey, hkeys]
    simp only [Reference.parse, String.toList_ofList, head?_splitOn_body hne, decide_eq_true_eq,
      ← keysOf_eq, hempty, referenceOf]

/-! ## Reading -/

/-- A literal span is read as its literal, and never fails. -/
theorem mapM_literalSpans_append (span : List Char) (spans : List Span) :
    (literalSpans span ++ spans).mapM Span.toFragment =
      (spans.mapM Span.toFragment).map (literalOf span ++ ·) := by
  rw [literalSpans, literalOf]
  split
  · rw [List.nil_append]
    cases spans.mapM Span.toFragment <;> rfl
  · rw [List.singleton_append, List.mapM_cons, Span.toFragment, Fragment.unescape_eq_replaceAll]
    cases spans.mapM Span.toFragment <;> rfl

/-- The fragments are those of the spans, unless a body has an empty key. The first such body is
the one that is reported. -/
theorem mapM_spansOf (tokens : List (List Char × List Char)) (last : List Char) :
    (spansOf tokens last).mapM Span.toFragment =
      match tokens.find? fun token => HasEmptyKey token.2 with
      | some token => .error { path := String.ofList token.2 }
      | none => .ok (fragmentsOf tokens last) := by
  induction tokens with
  | nil =>
    have hlast := mapM_literalSpans_append last []
    rw [List.append_nil] at hlast
    rw [spansOf, hlast, fragmentsOf, List.find?_nil, List.mapM_nil]
    exact congrArg Except.ok (List.append_nil _)
  | cons token tokens ih =>
    obtain ⟨span, body⟩ := token
    rw [spansOf, mapM_literalSpans_append, List.mapM_cons, Span.toFragment, parse_body, ih]
    by_cases hempty : HasEmptyKey body
    · rw [if_pos hempty, List.find?_cons_of_pos (by simpa using hempty)]
      rfl
    · rw [if_neg hempty, List.find?_cons_of_neg (by simpa using hempty)]
      cases tokens.find? fun token => HasEmptyKey token.2 <;> rfl

/-- A single literal is a text. -/
theorem collapse_literal (text : String) :
    collapse { fragments := [.literal text] } = .text text := by
  change Scalar.text (String.join [text]) = _
  rw [String.join_cons, String.join_nil, String.append_empty]

/-- A template with a reference in it is not collapsed. -/
theorem collapse_of_mem {ref : Reference} {fragments : List Fragment}
    (h : .reference ref ∈ fragments) : collapse { fragments } = .template { fragments } := by
  have hnone : fragments.mapM Fragment.literal? = none := by
    induction fragments with
    | nil => cases h
    | cons fragment fragments ih =>
      rw [List.mapM_cons]
      rcases List.mem_cons.mp h with rfl | h
      · rfl
      · rw [ih h]
        cases fragment.literal? <;> rfl
  rw [collapse, hnone]

theorem Tokenized.last_eq_rest (h : Tokenized read rest [] last) : last = rest := by
  cases h with
  | done none => rfl

/-- What a raw value is read as, if every path in it has all of its keys: a text if it has no
reference. -/
def valueOf (raw : List Char) (tokens : List (List Char × List Char)) (last : List Char) :
    Scalar :=
  if tokens = [] then .text (String.ofList (Text.replaceAll ['(', '(', '!'] ['(', '!'] raw))
  else .template { fragments := fragmentsOf tokens last }

/-- The fragments of a raw value are collapsed just if it has no reference. -/
theorem collapse_fragmentsOf (h : Tokenized read rest tokens last) :
    collapse { fragments := fragmentsOf tokens last } = valueOf rest tokens last := by
  cases tokens with
  | nil =>
    obtain rfl := h.last_eq_rest
    rw [valueOf, if_pos rfl, fragmentsOf, literalOf]
    split
    · rename_i hnil
      rw [hnil]
      rfl
    · exact collapse_literal _
  | cons token tokens =>
    rw [valueOf, if_neg (List.cons_ne_nil token tokens)]
    exact collapse_of_mem (List.mem_append_right _ List.mem_cons_self)

/-- A raw value is read by its references, and the first one with an empty key is reported. -/
theorem parse_of_tokenized {raw : String} (h : Tokenized [] raw.toList tokens last) :
    parse raw =
      match tokens.find? fun token => HasEmptyKey token.2 with
      | some token => .error { path := String.ofList token.2 }
      | none => .ok (valueOf raw.toList tokens last) := by
  have hscan : scan (.text false) raw.toList = spansOf tokens last := scan_of_tokenized h
  rw [parse, hscan, mapM_spansOf, ← collapse_fragmentsOf h]
  cases tokens.find? fun token => HasEmptyKey token.2 <;> rfl

/-- Reading fails with the first path that has an empty key. -/
theorem parse_eq_error_iff {raw : String} {e : EmptySegment}
    (h : Tokenized [] raw.toList tokens last) :
    parse raw = .error e ↔ ∃ before span body after,
      tokens = before ++ (span, body) :: after ∧ (∀ token ∈ before, ¬ HasEmptyKey token.2) ∧
        HasEmptyKey body ∧ e = { path := String.ofList body } := by
  rw [parse_of_tokenized h]
  constructor
  · intro he
    cases hfind : tokens.find? fun token => HasEmptyKey token.2 with
    | none =>
      rw [hfind] at he
      cases he
    | some token =>
      rw [hfind] at he
      obtain ⟨hempty, before, after, hsplit, hbefore⟩ := List.find?_eq_some_iff_append.mp hfind
      refine ⟨before, token.1, token.2, after, hsplit, ?_, ?_, (Except.error.inj he).symm⟩
      · simpa using hbefore
      · simpa using hempty
  · rintro ⟨before, span, body, after, hsplit, hbefore, hempty, rfl⟩
    have hfind : (tokens.find? fun token => HasEmptyKey token.2) = some (span, body) :=
      List.find?_eq_some_iff_append.mpr
        ⟨by simpa using hempty, before, after, hsplit, by simpa using hbefore⟩
    rw [hfind]

/-- Reading succeeds if no path has an empty key. -/
theorem parse_eq_ok_iff {raw : String} {value : Scalar}
    (h : Tokenized [] raw.toList tokens last) :
    parse raw = .ok value ↔
      (∀ token ∈ tokens, ¬ HasEmptyKey token.2) ∧ value = valueOf raw.toList tokens last := by
  have hnone : (tokens.find? fun token => HasEmptyKey token.2) = none ↔
      ∀ token ∈ tokens, ¬ HasEmptyKey token.2 := by
    simp only [List.find?_eq_none, decide_eq_true_eq]
  rw [parse_of_tokenized h, ← hnone]
  cases tokens.find? fun token => HasEmptyKey token.2 with
  | none => simp [eq_comm]
  | some token => simp

/-- The references of a raw value are those found from left to right. The first path with an empty
key is the error, and if there is none, the value is read as what stands at and between its
references. -/
theorem parse_reads_tokens (raw : String) :
    ∃ tokens last, Tokenized [] raw.toList tokens last ∧
      (∀ tokens' last', Tokenized [] raw.toList tokens' last' → tokens' = tokens ∧ last' = last) ∧
      (∀ e, parse raw = .error e ↔ ∃ before span body after,
        tokens = before ++ (span, body) :: after ∧ (∀ token ∈ before, ¬ HasEmptyKey token.2) ∧
          HasEmptyKey body ∧ e = { path := String.ofList body }) ∧
      ∀ value, parse raw = .ok value ↔
        (∀ token ∈ tokens, ¬ HasEmptyKey token.2) ∧ value = valueOf raw.toList tokens last := by
  obtain ⟨tokens, last, h⟩ := exists_tokenized [] raw.toList
  exact ⟨tokens, last, h, fun _ _ h' => h'.unique h, fun _ => parse_eq_error_iff h,
    fun _ => parse_eq_ok_iff h⟩

example : parse "((!a)(!)(!b(!c)(!d" = .ok (.template { fragments := [.literal "(!a)(!)",
    .reference { absolute := false, segments := ["b(!c"] }, .literal "(!d"] }) := rfl

end Template

end LayeredConfig
