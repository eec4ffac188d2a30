/-!
# Replacing in a text

Every occurrence of some characters is replaced, from left to right and without overlap.
-/

namespace LayeredConfig.Text

variable {pattern : List Char} {c : Char} {cs : List Char}

/-- What becomes of a text behind an occurrence that reaches `skip` characters into it. -/
def replaceFrom (pattern replacement : List Char) : (skip : Nat) → List Char → List Char
  | _, [] => []
  | skip + 1, _ :: cs => replaceFrom pattern replacement skip cs
  | 0, c :: cs =>
    if pattern <+: c :: cs then
      replacement ++ replaceFrom pattern replacement (pattern.length - 1) cs
    else c :: replaceFrom pattern replacement 0 cs

/-- A text with every occurrence of `pattern` replaced. -/
def replaceAll (pattern replacement : List Char) (cs : List Char) : List Char :=
  replaceFrom pattern replacement 0 cs

/-- The characters to be skipped leave nothing behind. -/
theorem replaceFrom_length_append (pattern replacement skipped cs : List Char) :
    replaceFrom pattern replacement skipped.length (skipped ++ cs) =
      replaceAll pattern replacement cs := by
  induction skipped with
  | nil => rfl
  | cons c skipped ih => rw [List.length_cons, List.cons_append, replaceFrom, ih]

/-- An occurrence at the start of a text is replaced. -/
theorem replaceAll_append (hne : pattern ≠ []) (replacement cs : List Char) :
    replaceAll pattern replacement (pattern ++ cs) =
      replacement ++ replaceAll pattern replacement cs := by
  obtain ⟨c, pattern, rfl⟩ := List.exists_cons_of_ne_nil hne
  have hprefix : c :: pattern <+: c :: (pattern ++ cs) := List.prefix_append (c :: pattern) cs
  rw [List.cons_append, replaceAll, replaceFrom, if_pos hprefix]
  exact congrArg (replacement ++ ·)
    (replaceFrom_length_append (c :: pattern) replacement pattern cs)

/-- A character is kept if no occurrence starts at it. -/
theorem replaceAll_cons (h : ¬ pattern <+: c :: cs) (replacement : List Char) :
    replaceAll pattern replacement (c :: cs) = c :: replaceAll pattern replacement cs := by
  rw [replaceAll, replaceFrom, if_neg h, replaceAll]

end LayeredConfig.Text
