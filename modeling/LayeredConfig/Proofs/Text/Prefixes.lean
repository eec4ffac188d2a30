import Mathlib.Data.List.TakeWhile

/-!
# Prefixes that end where a text is put together

A reader takes the longest prefix of some kind of characters. In front of a text that does not start
with such a character it takes, and leaves, what it would without that text.
-/

namespace LayeredConfig.Text

variable {p : Char → Bool} {cs rest : List Char}

/-- The prefix of a text does not reach into a text that starts with another character. -/
theorem takeWhile_append_of_head (hrest : ∀ c ∈ rest.head?, p c = false) :
    (cs ++ rest).takeWhile p = cs.takeWhile p := by
  induction cs with
  | nil =>
    cases rest with
    | nil => rfl
    | cons c rest => simp [hrest c rfl]
  | cons c cs ih =>
    rw [List.cons_append, List.takeWhile_cons, List.takeWhile_cons, ih]

/-- What is left behind the prefix of a text has the other text behind it. -/
theorem dropWhile_append_of_head (hrest : ∀ c ∈ rest.head?, p c = false) :
    (cs ++ rest).dropWhile p = cs.dropWhile p ++ rest := by
  induction cs with
  | nil =>
    cases rest with
    | nil => rfl
    | cons c rest => simp [hrest c rfl]
  | cons c cs ih =>
    rw [List.cons_append, List.dropWhile_cons, List.dropWhile_cons, ih]
    split
    · rfl
    · rw [List.cons_append]

theorem takeWhile_of_head (h : ∀ c ∈ cs.head?, p c = false) : cs.takeWhile p = [] :=
  @takeWhile_append_of_head p [] cs h

/-- A text of the one kind is the whole prefix where something else follows. -/
theorem takeWhile_append_of_stop (hcs : ∀ c ∈ cs, p c = true)
    (hrest : ∀ c ∈ rest.head?, p c = false) : (cs ++ rest).takeWhile p = cs := by
  rw [takeWhile_append_of_head hrest, List.takeWhile_eq_self_iff.mpr hcs]

/-- Such a text is dropped, and what follows is left. -/
theorem dropWhile_append_of_stop (hcs : ∀ c ∈ cs, p c = true)
    (hrest : ∀ c ∈ rest.head?, p c = false) : (cs ++ rest).dropWhile p = rest := by
  rw [dropWhile_append_of_head hrest, List.dropWhile_eq_nil_iff.mpr hcs, List.nil_append]

section head

variable {p : Char → Prop}

/-- What a test of all characters has found holds of each of them. -/
theorem forall_mem_of_all [DecidablePred p] (h : cs.all (fun c => decide (p c)) = true) :
    ∀ c ∈ cs, p c :=
  fun c hc => of_decide_eq_true (List.all_eq_true.mp h c hc)

/-- The first character of two texts is the first one of either. -/
theorem forall_head_append (hcs : ∀ c ∈ cs, p c) (hrest : ∀ c ∈ rest.head?, p c) :
    ∀ c ∈ (cs ++ rest).head?, p c := by
  cases cs with
  | nil => exact hrest
  | cons a cs =>
    rintro _ ⟨⟩
    exact hcs a List.mem_cons_self

/-- The first character of two texts is the first one of the former, if it has any. -/
theorem forall_head_append_of_ne_nil (hne : cs ≠ []) (hcs : ∀ c ∈ cs, p c) :
    ∀ c ∈ (cs ++ rest).head?, p c := by
  obtain ⟨a, cs, rfl⟩ := List.exists_cons_of_ne_nil hne
  rintro _ ⟨⟩
  exact hcs a List.mem_cons_self

end head

end LayeredConfig.Text
