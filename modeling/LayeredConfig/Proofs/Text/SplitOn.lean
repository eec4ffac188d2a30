import LayeredConfig.Text.Chars

/-!
# Splitting a text

A text that is put together from pieces with a separator between them is split at the separator into
these pieces, provided that none of them holds it.
-/

namespace LayeredConfig.Text

/-- A text has at least one piece, which may be empty. -/
theorem splitOn_ne_nil (separator : Char) (cs : List Char) :
    splitOn separator cs ≠ [] := by
  cases cs with
  | nil => exact List.cons_ne_nil [] []
  | cons c cs =>
    rw [splitOn]
    split
    · exact List.cons_ne_nil _ _
    · split <;> exact List.cons_ne_nil _ _

/-- A text without a separator is one piece. -/
theorem splitOn_of_not_mem {separator : Char} {cs : List Char} (h : separator ∉ cs) :
    splitOn separator cs = [cs] := by
  induction cs with
  | nil => rfl
  | cons c cs ih =>
    rw [List.mem_cons, not_or] at h
    rw [splitOn, ih h.2]
    exact if_neg (Ne.symm h.1)

/-- A text is split at its first separator. -/
theorem splitOn_append {separator : Char} {cs : List Char} (h : separator ∉ cs)
    (rest : List Char) :
    splitOn separator (cs ++ separator :: rest) = cs :: splitOn separator rest := by
  induction cs with
  | nil =>
    obtain ⟨piece, pieces, hrest⟩ := List.exists_cons_of_ne_nil (splitOn_ne_nil separator rest)
    rw [List.nil_append, splitOn, hrest]
    exact if_pos rfl
  | cons c cs ih =>
    rw [List.mem_cons, not_or] at h
    rw [List.cons_append, splitOn, ih h.2]
    exact if_neg (Ne.symm h.1)

/-- A text is its last piece, or a piece with a separator and a text behind it. -/
theorem splitOn_induction {separator : Char} {motive : List Char → Prop}
    (last : ∀ piece, separator ∉ piece → motive piece)
    (cons : ∀ piece rest, separator ∉ piece → motive rest → motive (piece ++ separator :: rest))
    (cs : List Char) : motive cs := by
  induction hlength : cs.length using Nat.strongRecOn generalizing cs with
  | ind n ih =>
    by_cases hmem : separator ∈ cs
    · obtain ⟨piece, rest, rfl, hpiece⟩ := List.eq_append_cons_of_mem hmem
      refine cons piece rest hpiece (ih rest.length ?_ rest rfl)
      rw [← hlength, List.length_append, List.length_cons]
      omega
    · exact last cs hmem

/-- A piece between separators holds none. -/
theorem not_mem_of_mem_splitOn {separator : Char} {cs piece : List Char}
    (h : piece ∈ splitOn separator cs) : separator ∉ piece := by
  induction cs generalizing piece with
  | nil =>
    rw [List.mem_singleton.mp h]
    exact List.not_mem_nil
  | cons c cs ih =>
    obtain ⟨first, pieces, hsplit⟩ := List.exists_cons_of_ne_nil (splitOn_ne_nil separator cs)
    rw [splitOn, hsplit] at h
    rw [hsplit] at ih
    dsimp only at h
    split at h
    · rcases List.mem_cons.mp h with rfl | h
      · exact List.not_mem_nil
      · exact ih h
    · rename_i hc
      rcases List.mem_cons.mp h with rfl | h
      · exact List.not_mem_cons_of_ne_of_not_mem (Ne.symm hc) (ih List.mem_cons_self)
      · exact ih (List.mem_cons_of_mem first h)

/-- All that is not a separator stands in the pieces. -/
theorem exists_mem_splitOn_iff {separator c : Char} (hc : c ≠ separator) (cs : List Char) :
    (∃ piece ∈ splitOn separator cs, c ∈ piece) ↔ c ∈ cs := by
  induction cs with
  | nil => simp [splitOn]
  | cons d cs ih =>
    obtain ⟨first, pieces, hsplit⟩ := List.exists_cons_of_ne_nil (splitOn_ne_nil separator cs)
    simp only [hsplit, List.mem_cons, exists_eq_or_imp] at ih
    rw [splitOn, hsplit, List.mem_cons, ← ih]
    dsimp only
    split
    · rename_i hd
      have hcd : c ≠ d := fun h => hc (h.trans hd)
      simp [hcd]
    · simp only [List.mem_cons, exists_eq_or_imp, or_assoc]

/-- Pieces that are joined are split again into the same pieces. -/
theorem splitOn_intercalate (separator : Char) {pieces : List String} (hne : pieces ≠ [])
    (h : ∀ piece ∈ pieces, separator ∉ piece.toList) :
    splitOn separator ((String.singleton separator).intercalate pieces).toList =
      pieces.map String.toList := by
  induction pieces with
  | nil => exact absurd rfl hne
  | cons piece pieces ih =>
    obtain ⟨hpiece, hpieces⟩ := List.forall_mem_cons.mp h
    cases pieces with
    | nil =>
      rw [String.intercalate_singleton, splitOn_of_not_mem hpiece]
      rfl
    | cons next pieces =>
      have hrest := ih (List.cons_ne_nil next pieces) hpieces
      rw [String.intercalate_cons_cons, String.toList_append, String.toList_append,
        String.toList_singleton, List.append_assoc, List.singleton_append, splitOn_append hpiece,
        hrest]
      rfl

end LayeredConfig.Text
