import LayeredConfig.Proofs.Template.Tokens
import Mathlib.Data.List.Chain

/-!
# Source forms read back

The source form of a template is read as that template, if its fragments are ones that a raw value
can have at all (`Normal`). Literals are escaped one by one while references are looked for across
all fragments, so this is about what meets at their ends: no reference starts inside an escaped
literal (`isLiteral_escape`), and the parenthesis of a reference is not doubled.
-/

namespace LayeredConfig

/-- The path of a reference can be written between `(!` and `)`. -/
def Reference.IsPlain (ref : Reference) : Prop :=
  ref.segments ≠ [] ∧ ∀ key ∈ ref.segments, key ≠ "" ∧ ':' ∉ key.toList ∧ ')' ∉ key.toList

/-- A fragment that a raw value can have. -/
def Fragment.IsPlain : Fragment → Prop
  | .literal text => text ≠ ""
  | .reference ref => ref.IsPlain
  | .nested _ => False

/-- A fragment can stand in front of another one: literals are as long as they can be, and none
takes the parenthesis of a reference away. -/
def Fragment.MayPrecede : Fragment → Fragment → Prop
  | .literal _, .literal _ => False
  | .literal text, .reference _ => text.toList.getLast? ≠ some '('
  | _, _ => True

/-- Fragments that a raw value can have, in an order that it can have them in. -/
structure Template.Normal (fragments : List Fragment) : Prop where
  plain : ∀ fragment ∈ fragments, fragment.IsPlain
  adjacent : fragments.IsChain Fragment.MayPrecede

instance : DecidablePred Reference.IsPlain := fun ref =>
  inferInstanceAs (Decidable (ref.segments ≠ [] ∧
    ∀ key ∈ ref.segments, key ≠ "" ∧ ':' ∉ key.toList ∧ ')' ∉ key.toList))

instance : DecidablePred Fragment.IsPlain
  | .literal text => inferInstanceAs (Decidable (text ≠ ""))
  | .reference ref => inferInstanceAs (Decidable ref.IsPlain)
  | .nested _ => inferInstanceAs (Decidable False)

instance : DecidableRel Fragment.MayPrecede
  | .literal _, .literal _ => inferInstanceAs (Decidable False)
  | .literal text, .reference _ => inferInstanceAs (Decidable (text.toList.getLast? ≠ some '('))
  | .literal _, .nested _ => inferInstanceAs (Decidable True)
  | .reference _, _ => inferInstanceAs (Decidable True)
  | .nested _, _ => inferInstanceAs (Decidable True)

instance : DecidablePred Template.Normal := fun fragments =>
  decidable_of_iff ((∀ fragment ∈ fragments, fragment.IsPlain) ∧
      fragments.IsChain Fragment.MayPrecede)
    ⟨fun h => ⟨h.1, h.2⟩, fun h => ⟨h.plain, h.adjacent⟩⟩

/-! ## Paths -/

open Template

namespace Reference

variable {ref : Reference}

theorem toList_render (ref : Reference) :
    ref.render.toList =
      (if ref.absolute then [':'] else []) ++ (":".intercalate ref.segments).toList := by
  rw [render, String.toList_append]
  split <;> rfl

namespace IsPlain

/-- A path whose keys hold no colon is split into these keys. -/
theorem splitOn_segments (h : ref.IsPlain) :
    Text.splitOn ':' (":".intercalate ref.segments).toList = ref.segments.map String.toList :=
  Text.splitOn_intercalate ':' h.1 fun key hkey => (h.2 key hkey).2.1

/-- A path without a colon in front does not look like one that has it: its first key is not
empty. -/
theorem head?_segments (h : ref.IsPlain) :
    (":".intercalate ref.segments).toList.head? ≠ some ':' := by
  intro hhead
  obtain ⟨cs, hcs⟩ := List.head?_eq_some_iff.mp hhead
  have hsplit := h.splitOn_segments
  rw [hcs, splitOn_colon] at hsplit
  obtain ⟨key, hkey, hnil⟩ := List.mem_map.mp (hsplit ▸ List.mem_cons_self)
  exact (h.2 key hkey).1 (String.toList_eq_nil_iff.mp hnil)

/-- The path that is written starts with a colon just if it is absolute. -/
theorem head?_render_iff (h : ref.IsPlain) :
    ref.render.toList.head? = some ':' ↔ ref.absolute = true := by
  rw [toList_render]
  cases ref.absolute
  · simpa using h.head?_segments
  · simp

/-- The keys of a path are those that it was written with. -/
theorem keysOf_render (h : ref.IsPlain) :
    keysOf ref.render.toList = ref.segments.map String.toList := by
  rw [← h.splitOn_segments, keysOf, toList_render]
  cases ref.absolute
  · exact congrArg (Text.splitOn ':') (if_neg h.head?_segments)
  · rfl

/-- A path is read as the reference that was written. -/
theorem referenceOf_render (h : ref.IsPlain) : referenceOf ref.render.toList = ref := by
  obtain ⟨absolute, segments⟩ := ref
  rw [referenceOf, h.keysOf_render]
  simp only [h.head?_render_iff, List.map_map, Bool.decide_eq_true, mk.injEq, true_and]
  exact (List.map_congr_left fun key _ => String.ofList_toList).trans (List.map_id segments)

/-- No key of a path that is written is empty. -/
theorem not_hasEmptyKey_render (h : ref.IsPlain) : ¬ HasEmptyKey ref.render.toList := by
  rw [HasEmptyKey, h.keysOf_render, List.mem_map]
  rintro ⟨key, hkey, hnil⟩
  exact (h.2 key hkey).1 (String.toList_eq_nil_iff.mp hnil)

theorem render_ne_nil (h : ref.IsPlain) : ref.render.toList ≠ [] := by
  intro hnil
  refine h.not_hasEmptyKey_render ?_
  rw [hnil]
  exact List.mem_cons_self

/-- A path that is written does not close its own reference. -/
theorem not_mem_render (h : ref.IsPlain) : ')' ∉ ref.render.toList := by
  rw [toList_render, List.mem_append, not_or]
  constructor
  · split <;> simp
  · rw [← Text.exists_mem_splitOn_iff (by decide : ')' ≠ ':'), h.splitOn_segments]
    rintro ⟨_, hmem, hparen⟩
    obtain ⟨key, hkey, rfl⟩ := List.mem_map.mp hmem
    exact (h.2 key hkey).2.2 hparen

end IsPlain

/-- What stands between `(!` and `)` is the path of a reference, if it has no empty key. -/
theorem isPlain_referenceOf {body : List Char} (hclosed : ')' ∉ body)
    (hkeys : ¬ HasEmptyKey body) : (referenceOf body).IsPlain := by
  refine ⟨?_, fun key hkey => ?_⟩
  · rw [referenceOf, ne_eq, List.map_eq_nil_iff]
    exact Text.splitOn_ne_nil ':' _
  · obtain ⟨piece, hpiece, rfl⟩ := List.mem_map.mp hkey
    rw [String.toList_ofList]
    refine ⟨?_, Text.not_mem_of_mem_splitOn hpiece, fun hparen => hclosed ?_⟩
    · intro hempty
      obtain rfl := String.ofList_eq_empty_iff.mp hempty
      exact hkeys hpiece
    · have hmem := (Text.exists_mem_splitOn_iff (by decide) _).mp ⟨piece, hpiece, hparen⟩
      split at hmem
      · exact List.mem_of_mem_tail hmem
      · exact hmem

end Reference

namespace Template

variable {read rest span body after last : List Char} {fragments : List Fragment}
  {tokens : List (List Char × List Char)} {ref : Reference} {text : String}

/-! ## Escaped literals -/

/-- No reference starts in escaped text. -/
theorem isLiteral_escape (read cs : List Char) (hrest : rest.head? ≠ some '!') :
    IsLiteral (Fragment.escape cs).length read (Fragment.escape cs ++ rest) := by
  fun_induction Fragment.escape cs generalizing read with
  | case1 cs ih =>
    -- of the three characters, only the second one stands in front of `!`, and `(` in front of it
    refine .cons (fun _ _ => not_tokenIn_here fun _ => Or.inr (by simp)) ?_
    refine .cons (fun _ _ => not_tokenIn_here fun _ => Or.inl (by simp)) ?_
    exact .cons (fun _ _ => not_tokenIn_here (by simp)) (ih _)
  | case2 c cs hopening ih =>
    refine .cons (fun _ _ => not_tokenIn_here fun hc => Or.inr ?_) (ih _)
    -- an exclamation mark behind a parenthesis was there before escaping, which has doubled that
    intro hbang
    cases hcs : Fragment.escape cs with
    | nil => exact hrest (by rwa [hcs] at hbang)
    | cons c' cs' =>
      rw [hcs] at hbang
      obtain rfl := Option.some.inj hbang
      obtain ⟨cs'', rfl⟩ := Fragment.of_escape_eq_bang hcs
      exact hopening cs'' hc rfl
  | case3 => exact fun _ _ _ _ => Nat.zero_le _

/-- Escaped text is read as the literal that was escaped. -/
theorem literalOf_escape (hne : text ≠ "") :
    literalOf (Fragment.escape text.toList) = [.literal text] := by
  have hescape : Fragment.escape text.toList ≠ [] := by
    rw [ne_eq, Fragment.escape_eq_nil_iff, String.toList_eq_nil_iff]
    exact hne
  rw [literalOf, if_neg hescape, ← Fragment.unescape_eq_replaceAll, Fragment.unescape_escape,
    String.ofList_toList]

/-! ## Normal fragments -/

namespace Normal

/-- A reference may stand in front of any normal fragments. -/
theorem cons_reference (href : ref.IsPlain) (h : Normal fragments) :
    Normal (.reference ref :: fragments) := by
  refine ⟨List.forall_mem_cons.mpr ⟨href, h.plain⟩, List.isChain_cons.mpr ⟨?_, h.adjacent⟩⟩
  intro fragment _
  cases fragment <;> trivial

theorem of_cons {fragment : Fragment} (h : Normal (fragment :: fragments)) : Normal fragments :=
  ⟨(List.forall_mem_cons.mp h.plain).2, h.adjacent.of_cons⟩

/-- Normal fragments are at most one literal, or such a literal, a reference, and normal fragments
again. -/
theorem exists_split (h : Normal fragments) :
    ∃ text : String, fragments = literalOf (Fragment.escape text.toList) ∨
      ∃ ref others, fragments =
          literalOf (Fragment.escape text.toList) ++ .reference ref :: others ∧
        text.toList.getLast? ≠ some '(' ∧ ref.IsPlain ∧ Normal others := by
  cases fragments with
  | nil => exact ⟨"", Or.inl rfl⟩
  | cons fragment fragments =>
    obtain ⟨hplain, hothers⟩ := List.forall_mem_cons.mp h.plain
    cases fragment with
    | nested inner => exact absurd hplain id
    | reference ref => exact ⟨"", Or.inr ⟨ref, fragments, rfl, by simp, hplain, h.of_cons⟩⟩
    | literal text =>
      refine ⟨text, ?_⟩
      rw [literalOf_escape hplain]
      cases fragments with
      | nil => exact Or.inl rfl
      | cons next others =>
        have hadjacent := (List.isChain_cons_cons.mp h.adjacent).1
        cases next with
        | literal text' => exact absurd hadjacent id
        | nested inner => exact absurd (hothers _ List.mem_cons_self) id
        | reference ref =>
          exact Or.inr ⟨ref, others, rfl, hadjacent, hothers _ List.mem_cons_self,
            h.of_cons.of_cons⟩

/-- The literal for a span is normal. -/
theorem of_literalOf (span : List Char) : Normal (literalOf span) := by
  rw [literalOf]
  split
  · exact ⟨List.forall_mem_nil _, .nil⟩
  · rename_i hspan
    refine ⟨List.forall_mem_singleton.mpr ?_, .singleton _⟩
    rw [Fragment.IsPlain, ne_eq, String.ofList_eq_empty_iff, ← Fragment.unescape_eq_replaceAll,
      Fragment.unescape_eq_nil_iff]
    exact hspan

/-- What a literal span leaves of the parentheses at its end does not reach into a reference. -/
theorem literalOf_append {span : List Char} (hspan : span.getLast? ≠ some '(')
    (h : Normal (.reference ref :: fragments)) :
    Normal (literalOf span ++ .reference ref :: fragments) := by
  have hliteral := of_literalOf span
  rw [literalOf] at hliteral ⊢
  split
  · exact h
  · rename_i hne
    rw [if_neg hne] at hliteral
    refine ⟨List.forall_mem_cons.mpr ⟨List.forall_mem_singleton.mp hliteral.plain, h.plain⟩,
      List.isChain_cons_cons.mpr ⟨?_, h.adjacent⟩⟩
    rwa [Fragment.MayPrecede, String.toList_ofList, ← Fragment.unescape_eq_replaceAll,
      Fragment.getLast?_unescape]

end Normal

/-! ## Source forms -/

/-- The source form starts with the escaped text of the first literal, and with nothing if there is
none. -/
theorem sourceList_literalOf_append (text : String) (fragments : List Fragment) :
    Fragment.sourceList (literalOf (Fragment.escape text.toList) ++ fragments) =
      Fragment.escape text.toList ++ Fragment.sourceList fragments := by
  by_cases hempty : text = ""
  · subst hempty
    rfl
  · rw [literalOf_escape hempty]
    rfl

theorem sourceList_literalOf (text : String) :
    Fragment.sourceList (literalOf (Fragment.escape text.toList)) =
      Fragment.escape text.toList := by
  have hsource := sourceList_literalOf_append text []
  rwa [List.append_nil, Fragment.sourceList, List.append_nil] at hsource

/-- A reference is found behind the escaped text in front of it. -/
theorem firstTokenIn_source (hread : read.getLast? ≠ some '(')
    (htext : text.toList.getLast? ≠ some '(') (href : ref.IsPlain) (rest : List Char) :
    FirstTokenIn read
      (Fragment.escape text.toList ++ (Fragment.source (.reference ref) ++ rest))
      (Fragment.escape text.toList) ref.render.toList rest where
  split := by simp [Fragment.source]
  nonempty := href.render_ne_nil
  closed_first := href.not_mem_render
  unescaped := by
    rw [List.getLast?_append, Fragment.getLast?_escape]
    cases hlast : text.toList.getLast? with
    | none => simpa using hread
    | some c => simpa [hlast] using htext
  first := isLiteral_escape read text.toList (by simp [Fragment.source])

/-- The references of a source form are found where they are written, with the escaped literals
between them. -/
theorem exists_tokenized_source (read : List Char) (fragments : List Fragment)
    (hread : read.getLast? ≠ some '(') (h : Normal fragments) :
    ∃ tokens last, Tokenized read (Fragment.sourceList fragments) tokens last ∧
      (∀ token ∈ tokens, ¬ HasEmptyKey token.2) ∧ fragmentsOf tokens last = fragments := by
  obtain ⟨text, rfl | ⟨ref, others, rfl, htext, href, hothers⟩⟩ := h.exists_split
  · have hliteral := isLiteral_escape read text.toList (by simp : [].head? ≠ some '!')
    rw [List.append_nil] at hliteral
    refine ⟨[], Fragment.escape text.toList, ?_, List.forall_mem_nil _, rfl⟩
    rw [sourceList_literalOf]
    exact .done fun _ _ _ => not_tokenIn_of_isLiteral hliteral
  · have hshorter : others.length <
        (literalOf (Fragment.escape text.toList) ++ .reference ref :: others).length := by
      rw [List.length_append, List.length_cons]
      omega
    -- the text read then ends in the `)` of the reference, so it doubles no parenthesis behind it
    obtain ⟨tokens, last, htokens, hkeys, hfragments⟩ := exists_tokenized_source
      (read ++ Fragment.escape text.toList ++ '(' :: '!' :: ref.render.toList ++ [')']) others
      (by rw [List.getLast?_concat]; decide) hothers
    refine ⟨(Fragment.escape text.toList, ref.render.toList) :: tokens, last, ?_,
      List.forall_mem_cons.mpr ⟨href.not_hasEmptyKey_render, hkeys⟩, ?_⟩
    · rw [sourceList_literalOf_append]
      exact .next (firstTokenIn_source hread htext href _) htokens
    · rw [fragmentsOf, href.referenceOf_render, hfragments]
termination_by fragments.length

/-! ## Reading source forms -/

/-- What is read is normal. -/
theorem normal_fragmentsOf (h : Tokenized read rest tokens last)
    (hkeys : ∀ token ∈ tokens, ¬ HasEmptyKey token.2) : Normal (fragmentsOf tokens last) := by
  induction h with
  | done none => exact .of_literalOf _
  | @next read rest span body after last tokens first others ih =>
    obtain ⟨hbody, hothers⟩ := List.forall_mem_cons.mp hkeys
    have href := Reference.isPlain_referenceOf first.closed_first hbody
    have hspan : span.getLast? ≠ some '(' := by
      intro hparen
      refine first.unescaped ?_
      rw [List.getLast?_append, hparen, Option.some_or]
    exact .literalOf_append hspan (.cons_reference href (ih hothers))

/-- Fragments that are not collapsed are kept as they are. -/
theorem eq_of_collapse_eq_template {template template' : Template}
    (h : collapse template = .template template') : template' = template := by
  unfold collapse at h
  split at h
  · cases h
  · exact (Scalar.template.inj h).symm

/-- The source form of normal fragments is read as the template that they make up. -/
theorem parse_render (h : Normal fragments) :
    parse (render { fragments }) = .ok (collapse { fragments }) := by
  obtain ⟨tokens, last, htokens, hkeys, hfragments⟩ :=
    exists_tokenized_source [] fragments (by simp) h
  have hrender : (render { fragments }).toList = Fragment.sourceList fragments :=
    String.toList_ofList
  rw [← hrender] at htokens
  refine (parse_eq_ok_iff htokens).mpr ⟨hkeys, ?_⟩
  rw [← collapse_fragmentsOf htokens, hfragments]

/-- A template that is read has normal fragments. -/
theorem normal_of_parse {raw : String} {template : Template}
    (h : parse raw = .ok (.template template)) : Normal template.fragments := by
  obtain ⟨tokens, last, htokens⟩ := exists_tokenized [] raw.toList
  obtain ⟨hkeys, hvalue⟩ := (parse_eq_ok_iff htokens).mp h
  rw [← collapse_fragmentsOf htokens] at hvalue
  rw [eq_of_collapse_eq_template hvalue.symm]
  exact normal_fragmentsOf htokens hkeys

/-- Escaped text is read as the text that it stands for. -/
theorem parse_escape (text : String) :
    parse (String.ofList (Fragment.escape text.toList)) = .ok (.text text) := by
  by_cases hempty : text = ""
  · subst hempty
    rfl
  · have hread := parse_render (.of_literalOf (Fragment.escape text.toList))
    rwa [render, sourceList_literalOf, literalOf_escape hempty, collapse_literal] at hread

/-- Writing and reading templates are inverse to each other: the source form of normal fragments is
read as the template that they make up, and all templates that are read have normal fragments. -/
theorem parse_render_of_normal :
    (∀ fragments, Normal fragments → parse (render { fragments }) = .ok (collapse { fragments })) ∧
      ∀ raw template, parse raw = .ok (.template template) → Normal template.fragments :=
  ⟨fun _ => parse_render, fun _ _ => normal_of_parse⟩

/-- Fragments with parentheses and exclamation marks wherever they may be. -/
def tricky : List Fragment :=
  [.literal "((!a) (!", .reference { absolute := false, segments := ["(!b", "!"] },
    .reference { absolute := true, segments := ["c d"] }, .literal ")(!)(("]

/-- Parentheses and exclamation marks next to references are read back, and so are those that a raw
value has unescaped. -/
theorem parse_render_of_normal_tricky :
    Normal tricky ∧
      render { fragments := tricky } = "(((!a) ((!(!(!b:!)(!:c d))((!)((" ∧
      parse (render { fragments := tricky }) = .ok (.template { fragments := tricky }) ∧
      parse "(!)(!(!a)((" = .ok (.template { fragments := [.literal "(!)",
        .reference { absolute := false, segments := ["(!a"] }, .literal "(("] }) ∧
      Normal [.literal "(!)", .reference { absolute := false, segments := ["(!a"] },
        .literal "(("] := by
  have hnormal : Normal tricky := by decide
  have hrender : render { fragments := tricky } = "(((!a) ((!(!(!b:!)(!:c d))((!)((" := by decide
  have hcollapse : collapse { fragments := tricky } = .template { fragments := tricky } := rfl
  have hread := parse_render_of_normal.1 tricky hnormal
  rw [hcollapse] at hread
  have hother : parse "(!)(!(!a)((" = .ok (.template { fragments := [.literal "(!)",
      .reference { absolute := false, segments := ["(!a"] }, .literal "(("] }) := rfl
  exact ⟨hnormal, hrender, hread, hother, parse_render_of_normal.2 _ _ hother⟩

end Template

end LayeredConfig
