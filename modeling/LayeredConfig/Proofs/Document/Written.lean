import LayeredConfig.Proofs.Document.LineEnds

/-!
# What is read, as it is written

Headers, and assignments up to their values, are read from the texts that are written for them and
from no others (`header_append` and `header_eq_some`, `target_eq_some_iff`).
-/

namespace LayeredConfig

/-- A mark in front of a key as it is written. -/
def Marker.chars : Option Marker → List Char
  | some .mandatory => ['^']
  | some .final => ['!']
  | some .temporary => ['~']
  | none => []

/-- An operator as it is written. -/
def AssignOp.chars : AssignOp → List Char
  | .deferred => ['=']
  | .immediate => [':', '=']

namespace Document

open Text

variable {cs rest name text : List Char} {op : AssignOp} {t : Target}

/-- A text is some white space and what is left when it is skipped. -/
theorem exists_spaces (cs : List Char) :
    ∃ spaces, (∀ c ∈ spaces, isSpace c = true) ∧ cs = spaces ++ skipSpaces cs :=
  ⟨cs.takeWhile isSpace, fun _ hc => List.mem_takeWhile_imp hc,
    List.takeWhile_append_dropWhile.symm⟩

/-- Characters are a word if there are some and all are characters of a name. -/
theorem isWord_ofList : IsWord (String.ofList name) ↔
    name ≠ [] ∧ ∀ c ∈ name, isNameChar .config c = true := by
  rw [IsWord, String.toList_ofList, List.all_eq_true, Ne, ← String.toList_eq_nil_iff,
    String.toList_ofList]

/-- A word that is read stands at the start of the text. -/
theorem word_eq_some (h : word .config cs = some (name, rest)) :
    cs = name ++ rest ∧ IsWord (String.ofList name) := by
  rw [word] at h
  split at h
  · cases h
  · rename_i hne
    obtain ⟨rfl, rfl⟩ := Prod.mk.inj (Option.some_inj.mp h)
    refine ⟨List.takeWhile_append_dropWhile.symm, isWord_ofList.mpr ⟨hne, ?_⟩⟩
    intro c hc
    exact List.mem_takeWhile_imp hc

/-! ## Assignments -/

/-- The mark that is read and what is left behind it make up the text. -/
theorem chars_marker (cs : List Char) : Marker.chars (marker cs).1 ++ (marker cs).2 = cs := by
  unfold marker
  split <;> rfl

/-- A mark is read back in front of a name. -/
theorem marker_chars (m : Option Marker) (h : ∀ c ∈ cs.head?, isNameChar .config c = true) :
    marker (Marker.chars m ++ cs) = (m, cs) := by
  cases m with
  | some m => cases m <;> rfl
  | none =>
    cases cs with
    | nil => rfl
    | cons c cs => exact marker_of_isNameChar (h c rfl)

/-- An operator is read back. -/
theorem assignOp_chars (op : AssignOp) (text : List Char) :
    assignOp (op.chars ++ text) = some (op, text) := by
  cases op <;> rfl

/-- An operator that is read stands at the start of the text. -/
theorem assignOp_eq_some (h : assignOp cs = some (op, rest)) : cs = op.chars ++ rest := by
  unfold assignOp at h
  split at h
  · cases h
    rfl
  · cases h
    rfl
  · cases h

/-- An assignment up to its value. -/
def Target.chars (t : Target) (gap : List Char) : List Char :=
  Marker.chars t.marker ++ (t.key ++ (gap ++ t.op.chars))

/-- An operator ends the name and the white space in front of it. -/
theorem head_assignOp (op : AssignOp) (text : List Char) :
    ∀ c ∈ (op.chars ++ text).head?, isSpace c = false ∧ isNameChar .config c = false := by
  cases op <;> rintro _ ⟨⟩ <;> decide

/-- The start of an assignment is read back, with white space in front of its operator. -/
theorem target_chars (t : Target) (hkey : IsWord (String.ofList t.key)) {gap : List Char}
    (hgap : ∀ c ∈ gap, isSpace c = true) (text : List Char) :
    target (t.chars gap ++ text) = some (t, text) := by
  obtain ⟨hne, hchars⟩ := isWord_ofList.mp hkey
  have hspaces : skipSpaces (gap ++ (t.op.chars ++ text)) = t.op.chars ++ text :=
    skipSpaces_append_of_stop hgap fun c hc => (head_assignOp t.op text c hc).1
  -- the key ends at the white space behind it, or at the operator
  have hend : ∀ c ∈ (gap ++ (t.op.chars ++ text)).head?, isNameChar .config c = false :=
    forall_head_append (fun c hc => not_isNameChar_of_isSpace (hgap c hc))
      fun c hc => (head_assignOp t.op text c hc).2
  have hword := word_append hkey hend
  have hmarker : marker (t.chars gap ++ text) =
      (t.marker, t.key ++ (gap ++ (t.op.chars ++ text))) := by
    simp only [Target.chars, List.append_assoc]
    exact marker_chars _ (forall_head_append_of_ne_nil hne hchars)
  rw [String.toList_ofList] at hword
  rw [target, hmarker, hword, Option.bind_some]
  dsimp only
  rw [hspaces, assignOp_chars]
  rfl

/-- The start of an assignment is read exactly from what is written for it. -/
theorem target_eq_some_iff :
    target cs = some (t, text) ↔
      IsWord (String.ofList t.key) ∧
        ∃ gap, (∀ c ∈ gap, isSpace c = true) ∧ cs = t.chars gap ++ text := by
  constructor
  · intro h
    obtain ⟨⟨key, afterKey⟩, hword, hafter⟩ := Option.bind_eq_some_iff.mp h
    obtain ⟨⟨op, afterOp⟩, hop, heq⟩ := Option.map_eq_some_iff.mp hafter
    obtain ⟨rfl, rfl⟩ := Prod.mk.inj heq
    obtain ⟨hcs, hkey⟩ := word_eq_some hword
    obtain ⟨gap, hgap, hsplit⟩ := exists_spaces afterKey
    refine ⟨hkey, gap, hgap, ?_⟩
    -- each part that is read has taken its characters from the start of what was left
    calc cs = Marker.chars (marker cs).1 ++ (marker cs).2 := (chars_marker cs).symm
      _ = Marker.chars (marker cs).1 ++ (key ++ (gap ++ skipSpaces afterKey)) := by
        rw [← hsplit, hcs]
      _ = Marker.chars (marker cs).1 ++ (key ++ (gap ++ (op.chars ++ afterOp))) := by
        rw [assignOp_eq_some hop]
      _ = _ := by simp only [Target.chars, List.append_assoc]
  · rintro ⟨hkey, gap, hgap, rfl⟩
    exact target_chars t hkey hgap text

/-- Behind the start of an assignment, an end of the text is left. -/
theorem target_suffix (h : target cs = some (t, text)) : text <:+ cs := by
  obtain ⟨-, gap, -, rfl⟩ := target_eq_some_iff.mp h
  exact List.suffix_append _ _

/-- What starts like an assignment is no header. -/
theorem header_of_target {r : Target × List Char} (h : target cs = some r) :
    header .config cs = none := by
  cases cs with
  | nil => rfl
  | cons c cs =>
    by_cases hc : c = '['
    · subst hc
      cases h
    · exact header_of_ne hc

/-! ## Headers -/

/-- A text is a run of one character and what is left when it is dropped. -/
theorem replicate_append_dropWhile (b : Char) (cs : List Char) :
    List.replicate (cs.takeWhile (· == b)).length b ++ cs.dropWhile (· == b) = cs := by
  have hrun : cs.takeWhile (· == b) = List.replicate (cs.takeWhile (· == b)).length b :=
    List.eq_replicate_iff.mpr ⟨rfl, fun c hc => by simpa using List.mem_takeWhile_imp hc⟩
  rw [← hrun, List.takeWhile_append_dropWhile]

/-- The end of a header is read from white space and closing brackets. -/
theorem headerEnd_eq_some {opening : Nat} {i : Item}
    (h : headerEnd .config opening name cs = some (i, rest)) :
    ∃ behind closing, (∀ c ∈ behind, isSpace c = true) ∧ 0 < closing ∧
      cs = behind ++ (List.replicate closing ']' ++ rest) ∧
      i = .header opening closing (String.ofList name) := by
  simp only [headerEnd] at h
  split at h
  · rename_i hclosing
    obtain ⟨rfl, rfl⟩ := Prod.mk.inj (Option.some_inj.mp h)
    obtain ⟨behind, hbehind, hcs⟩ := exists_spaces cs
    refine ⟨behind, _, hbehind, List.length_pos_iff.mpr hclosing, ?_, rfl⟩
    rw [replicate_append_dropWhile, ← hcs]
  · rw [if_neg (by rintro ⟨⟨⟩, -⟩)] at h
    cases h

/-- A header is read from brackets around a word, with white space inside them. -/
theorem header_eq_some {i : Item} (h : header .config cs = some (i, rest)) :
    ∃ opening before name behind closing, 0 < opening ∧ (∀ c ∈ before, isSpace c = true) ∧
      IsWord name ∧ (∀ c ∈ behind, isSpace c = true) ∧ 0 < closing ∧
      cs = List.replicate opening '[' ++ (before ++ (name.toList ++ (behind ++
        (List.replicate closing ']' ++ rest)))) ∧
      i = .header opening closing name := by
  simp only [header] at h
  split at h
  · cases h
  rename_i hopening
  -- behind the opening brackets a word is read, and then the end of the header
  split at h
  · cases h
  rename_i name afterName hword
  obtain ⟨hname, hisWord⟩ := word_eq_some hword
  obtain ⟨behind, closing, hbehind, hclosing, hafter, rfl⟩ := headerEnd_eq_some h
  obtain ⟨before, hbefore, hsplit⟩ := exists_spaces (cs.dropWhile (· == '['))
  refine ⟨_, before, String.ofList name, behind, closing, List.length_pos_iff.mpr hopening, hbefore,
    hisWord, hbehind, hclosing, ?_, rfl⟩
  rw [String.toList_ofList, ← hafter, ← hname, ← hsplit, replicate_append_dropWhile]

end Document

end LayeredConfig
