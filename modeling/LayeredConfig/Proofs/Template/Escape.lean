import LayeredConfig.Proofs.Text.Replace
import LayeredConfig.Template.Parse

/-!
# Escaping literal text

Escaping doubles the parenthesis of every `(!`, and unescaping takes it away again
(`unescape_escape`). Both leave the end of a text as it is.
-/

namespace LayeredConfig

namespace Fragment

/-- Escaped text starts with an exclamation mark only if the text does. -/
theorem of_escape_eq_bang {cs rest : List Char} (h : escape cs = '!' :: rest) :
    ∃ rest', cs = '!' :: rest' := by
  unfold escape at h
  split at h
  · cases h
  · cases h
    exact ⟨_, rfl⟩
  · cases h

/-- Escaped text does not start with `(!`. -/
theorem escape_ne_opening {cs rest : List Char} : escape cs ≠ '(' :: '!' :: rest := by
  intro h
  unfold escape at h
  split at h
  · cases h
  · rename_i c cs hopening
    obtain ⟨rfl, hrest⟩ := List.cons.inj h
    obtain ⟨rest', rfl⟩ := of_escape_eq_bang hrest
    exact hopening rest' rfl rfl
  · cases h

/-- Escaped text stands for the text that was escaped. -/
theorem unescape_escape (cs : List Char) : unescape (escape cs) = cs := by
  fun_induction escape cs with
  | case1 cs ih => rw [unescape, ih]
  | case2 c cs _ ih =>
    rw [unescape, ih]
    intro rest hc hrest
    -- escaped text does not start with `(!`, so it does not make this character a doubled one
    exact escape_ne_opening hrest
  | case3 => rfl

/-- Unescaping replaces every `((!` by `(!`. -/
theorem unescape_eq_replaceAll (cs : List Char) :
    unescape cs = Text.replaceAll ['(', '(', '!'] ['(', '!'] cs := by
  fun_induction unescape cs with
  | case1 cs ih =>
    rw [ih]
    exact (Text.replaceAll_append (List.cons_ne_nil '(' ['(', '!']) ['(', '!'] cs).symm
  | case2 c cs hopening ih =>
    rw [ih, Text.replaceAll_cons]
    rintro ⟨rest, hrest⟩
    obtain ⟨rfl, rfl⟩ := List.cons.inj hrest
    exact hopening rest rfl rfl
  | case3 => rfl

/-- Escaping does not touch the last character. -/
theorem getLast?_escape (cs : List Char) : (escape cs).getLast? = cs.getLast? := by
  fun_induction escape cs with
  | case1 cs ih => simp [List.getLast?_cons, ih]
  | case2 c cs hopening ih => rw [List.getLast?_cons, List.getLast?_cons, ih]
  | case3 => rfl

/-- Unescaping does not touch the last character. -/
theorem getLast?_unescape (cs : List Char) : (unescape cs).getLast? = cs.getLast? := by
  fun_induction unescape cs with
  | case1 cs ih => simp [List.getLast?_cons, ih]
  | case2 c cs hopening ih => rw [List.getLast?_cons, List.getLast?_cons, ih]
  | case3 => rfl

theorem escape_eq_nil_iff {cs : List Char} : escape cs = [] ↔ cs = [] := by
  rw [← List.getLast?_eq_none_iff, getLast?_escape, List.getLast?_eq_none_iff]

theorem unescape_eq_nil_iff {cs : List Char} : unescape cs = [] ↔ cs = [] := by
  rw [← List.getLast?_eq_none_iff, getLast?_unescape, List.getLast?_eq_none_iff]

end Fragment

end LayeredConfig
