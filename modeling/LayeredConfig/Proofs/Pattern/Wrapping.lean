import LayeredConfig.Pattern.Parse
import LayeredConfig.Proofs.Pattern.Extension
import LayeredConfig.Proofs.Pattern.Matching

/-!
# Patterns in a group

When a text that is a pattern by itself is put between `(?:` and `)`, the whole is read as a group
with that pattern in it (`Reads.inside`): the tokens are the same, and so is what the builder makes
of them, with the levels around the group below. The anchors before and after the group then say
where its matches begin and end.
-/

namespace LayeredConfig.Pattern

variable {table : PropertyTable} {tail start cs cs' rest : List Char} {token : Token}
  {flags : MatchFlags}

/-! ## Runs of the builder -/

namespace Builder

variable {b b' : Builder}

/-- The builder reads some tokens of a text, up to `rest`. -/
inductive Reads (table : PropertyTable) :
    (b : Builder) → (cs : List Char) → (b' : Builder) → (rest : List Char) → Prop
  | refl (b : Builder) (cs : List Char) : Reads table b cs b cs
  | step {b b' b'' : Builder} {cs ds rest : List Char} {token : Token}
      (next : nextToken table b.level.flags cs = .ok (some (token, ds)))
      (read : b.step token = .ok b') (more : Reads table b' ds b'' rest) : Reads table b cs b'' rest

/-- The builder with further levels around those that it has. -/
def inside (b : Builder) (outer : List Level) : Builder :=
  { b with outer := b.outer ++ outer }

/-- A token is read alike with further levels around. -/
theorem step_inside {outer : List Level} (h : b.step token = .ok b') :
    (b.inside outer).step token = .ok (b'.inside outer) := by
  cases token with
  | item | bar | setFlags =>
    cases h
    rfl
  | repetition min max greedy =>
    obtain ⟨level, hlevel, rfl⟩ := Except.map_eq_ok_iff.mp h
    exact Except.map_eq_ok_iff.mpr ⟨level, hlevel, rfl⟩
  | openGroup flags captures name =>
    unfold step at h ⊢
    simp only at h ⊢
    split at h
    next => cases h
    next hname =>
      cases h
      exact if_neg hname
  | closeGroup =>
    obtain ⟨level, levels, names⟩ := b
    cases levels with
    | nil => cases h
    | cons parent levels =>
      cases h
      rfl

/-- What the builder reads from a text it reads in a group, too. -/
theorem Reads.inside (outer : List Level) (htail : '\n' ∉ tail) (hcolon : ':' ∉ tail)
    (hreads : Reads table b cs b' rest) (h : Extends tail start cs cs') :
    ∃ rest', Reads table (b.inside outer) cs' (b'.inside outer) rest' ∧
      Extends tail start rest rest' := by
  induction hreads generalizing cs' with
  | refl b cs => exact ⟨cs', .refl _ _, h⟩
  | step next read more ih =>
    -- the token is read alike from the longer text, and the level of its flags is the same
    obtain ⟨-, ds', hnext, hds⟩ := nextToken_extends htail hcolon h next
    obtain ⟨rest', hmore, hrest⟩ := ih hds
    exact ⟨rest', .step hnext (step_inside read) hmore, hrest⟩

/-- What reads on reads what was read before, too. -/
theorem Reads.trans {b'' : Builder} {ds : List Char} (h : Reads table b cs b' ds)
    (h' : Reads table b' ds b'' rest) : Reads table b cs b'' rest := by
  induction h with
  | refl => exact h'
  | step next read _ ih => exact .step next read (ih h')

end Builder

/-! ## Patterns under flags -/

variable {text : String} {p w : Pattern} {b : Builder}

/-- A builder is finished exactly if no group is open. -/
theorem Builder.finish_eq_ok_iff : b.finish = .ok p ↔ b.outer = [] ∧ b.level.toPattern = p := by
  unfold Builder.finish
  split
  next houter =>
    rw [Except.ok.injEq]
    exact (and_iff_right (List.isEmpty_iff.mp houter)).symm
  next houter => exact ⟨nofun, fun h => absurd (List.isEmpty_iff.mpr h.1) houter⟩

end LayeredConfig.Pattern
