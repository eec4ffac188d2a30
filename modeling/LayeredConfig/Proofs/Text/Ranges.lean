import LayeredConfig.Text.Ranges

/-!
# Classes that have no character in common

Two classes of characters given by ranges are disjoint if no range of the one meets a range of the
other. That can be decided for two tables as they stand.
-/

namespace LayeredConfig.Text

variable {ranges others : List (Nat × Nat)} {c : Char}

/-- A character of a class lies in one of its ranges. -/
theorem exists_range_of_inRanges (h : inRanges ranges c = true) :
    ∃ range ∈ ranges, range.1 ≤ c.toNat ∧ c.toNat ≤ range.2 := by
  induction ranges with
  | nil => exact absurd h Bool.false_ne_true
  | cons range ranges ih =>
    simp only [inRanges, Bool.and_eq_true, Bool.or_eq_true, decide_eq_true_eq] at h
    -- the character lies in the first range, or the search goes on behind it
    obtain ⟨hlow, hhigh | hlater⟩ := h
    · exact ⟨range, List.mem_cons_self, hlow, hhigh⟩
    · obtain ⟨later, hmem, hc⟩ := ih hlater
      exact ⟨later, List.mem_cons_of_mem range hmem, hc⟩

/-- No range of the one table meets a range of the other. -/
def Apart (ranges others : List (Nat × Nat)) : Prop :=
  ∀ range ∈ ranges, ∀ other ∈ others, range.2 < other.1 ∨ other.2 < range.1

instance : DecidableRel Apart := fun ranges others =>
  inferInstanceAs
    (Decidable (∀ range ∈ ranges, ∀ other ∈ others, range.2 < other.1 ∨ other.2 < range.1))

/-- Of two classes whose ranges do not meet, no character is in both. -/
theorem Apart.not_inRanges (hapart : Apart ranges others) (h : inRanges ranges c = true) :
    inRanges others c = false := by
  apply Bool.eq_false_iff.mpr
  intro hother
  obtain ⟨range, hrange, hc⟩ := exists_range_of_inRanges h
  obtain ⟨other, hother, hc'⟩ := exists_range_of_inRanges hother
  have hmeet := hapart range hrange other hother
  omega

end LayeredConfig.Text
