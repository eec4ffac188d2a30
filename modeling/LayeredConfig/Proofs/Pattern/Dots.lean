import LayeredConfig.Proofs.Pattern.Wrapping

/-!
# What dots match

Whether a text can be read as a pattern does not depend on what a dot matches. With the flag for it
or without it, the tokens of a text end at the same places, and they are alike in all that the
builder looks at: the sets of the dots differ, and the flags that groups begin with.
-/

namespace LayeredConfig.Pattern

/-- Flags with a dot that matches line feeds, or one that does not. -/
def MatchFlags.withDots (flags : MatchFlags) (dotAll : Bool) : MatchFlags :=
  { flags with dotAll }

/-- Tokens that differ in what dots match. Neither of two items is `empty`, which cannot be
repeated, unless both are. -/
inductive Token.Alike : Token → Token → Prop
  | item {p q : Pattern} (empty : p = .empty ↔ q = .empty) : Alike (.item p) (.item q)
  | repetition (min : Nat) (max : Option Nat) (greedy : Bool) :
    Alike (.repetition min max greedy) (.repetition min max greedy)
  | bar : Alike .bar .bar
  | openGroup (flags : MatchFlags) (dotAll captures : Bool) (name : Option (List Char)) :
    Alike (.openGroup flags captures name) (.openGroup (flags.withDots dotAll) captures name)
  | closeGroup : Alike .closeGroup .closeGroup
  | setFlags (flags : MatchFlags) (dotAll : Bool) :
    Alike (.setFlags flags) (.setFlags (flags.withDots dotAll))

/-- Every token is like itself. -/
theorem Token.Alike.refl (token : Token) : token.Alike token := by
  cases token with
  | item p => exact .item .rfl
  | repetition min max greedy => exact .repetition min max greedy
  | bar => exact .bar
  | openGroup flags captures name => exact .openGroup flags flags.dotAll captures name
  | closeGroup => exact .closeGroup
  | setFlags flags => exact .setFlags flags flags.dotAll

/-- Tokens that are alike, and the same text after them. -/
def AlikeBefore (x y : Token × List Char) : Prop :=
  x.1.Alike y.1 ∧ x.2 = y.2

/-- So is a token in front of the same text. -/
theorem AlikeBefore.refl (x : Token × List Char) : AlikeBefore x x :=
  ⟨.refl x.1, rfl⟩

variable {table : PropertyTable} {flags : MatchFlags} {dotAll : Bool}

/-! ## Tokens -/

/-- Setting a flag gives flags that differ at most in what dots match. -/
theorem set?_withDots (flags : MatchFlags) (dotAll : Bool) (letter : Char) (value : Bool) :
    Option.Rel (fun f g => ∃ dots, g = f.withDots dots) (flags.set? letter value)
      ((flags.withDots dotAll).set? letter value) := by
  unfold MatchFlags.set?
  split
  case h_3 => exact .some ⟨value, rfl⟩
  case h_8 => exact .none
  all_goals exact .some ⟨dotAll, rfl⟩

/-- Flags are read alike, whatever dots match. -/
theorem readFlags_withDots (seen : List Char) (cs : List Char) :
    Except.Agree (fun x y => ∃ dots, y = ((x.1.1.withDots dots, x.1.2), x.2))
      (readFlags seen flags cs) (readFlags seen (flags.withDots dotAll) cs) := by
  induction cs generalizing seen flags dotAll with
  | nil => exact .error _ _
  | cons c cs ih =>
    rw [readFlags, readFlags]
    split
    next =>
      split
      next => exact .error _ _
      next => exact .ok ⟨dotAll, rfl⟩
    next =>
      split
      next => exact .error _ _
      next =>
        split
        next => exact ih _
        next =>
          -- one more flag: the letters decide whether there is one, and only its value may be about
          -- dots
          have hset := set?_withDots flags dotAll c (!seen.contains '-')
          revert hset
          generalize flags.set? c _ = f
          generalize (flags.withDots dotAll).set? c _ = g
          intro hset
          cases hset with
          | none => exact .error _ _
          | some h =>
            obtain ⟨dots, rfl⟩ := h
            exact ih _

/-- The start of a group is read alike, whatever dots match. -/
theorem readGroup_withDots (cs : List Char) :
    Except.Agree AlikeBefore (readGroup flags cs) (readGroup (flags.withDots dotAll) cs) := by
  have hverbose : (flags.withDots dotAll).verbose = flags.verbose := rfl
  have hname (cs : List Char) : Except.Agree AlikeBefore (readGroupName flags cs)
      (readGroupName (flags.withDots dotAll) cs) := by
    unfold readGroupName
    -- The flags go into the token and play no part in how the name is read.
    split
    next rest =>
      simp only
      split
      next => exact .ok ⟨.openGroup .., rfl⟩
      next => exact .error _ _
    next => exact .error _ _
  unfold readGroup
  rw [hverbose]
  generalize skipVerbose flags.verbose cs = ds
  split
  next => exact .error _ _
  next => exact .error _ _
  next => exact .error _ _
  next => exact .error _ _
  next => exact hname _
  next => exact hname _
  next rest _ _ _ _ _ _ =>
    refine (readFlags_withDots [] rest).bind ?_
    rintro ⟨⟨inner, isGroup⟩, ds⟩ _ ⟨dots, rfl⟩
    cases isGroup
    · exact .ok ⟨.setFlags .., rfl⟩
    · exact .ok ⟨.openGroup .., rfl⟩
  next => exact .ok ⟨.openGroup .., rfl⟩

/-- A class does not depend on what dots match. -/
theorem readClass_withDots (fuel : Nat) (outer : List OpenClass) (cls : OpenClass)
    (cs : List Char) :
    readClass table (flags.withDots dotAll) fuel outer cls cs =
      readClass table flags fuel outer cls cs := by
  induction fuel generalizing outer cls cs with
  | zero => rfl
  | succ fuel ih =>
    simp only [readClass, ih]
    rfl

/-- Where a set has to stay within ASCII, no dot is allowed. -/
theorem isAscii_dotSet : (dotSet flags).isAscii = false := by
  unfold dotSet
  split
  · decide
  · split <;> decide

/-- The next token is read alike, whatever dots match. -/
theorem nextToken_withDots (cs : List Char) : Except.Agree (Option.Rel AlikeBefore)
    (nextToken table flags cs) (nextToken table (flags.withDots dotAll) cs) := by
  have hverbose : (flags.withDots dotAll).verbose = flags.verbose := rfl
  have hunicode : (flags.withDots dotAll).unicode = flags.unicode := rfl
  have hrefl : ∀ x, Option.Rel AlikeBefore x x := fun x => by
    cases x with
    | none => exact .none
    | some x => exact .some (.refl x)
  unfold nextToken
  simp only [hverbose]
  generalize skipVerbose flags.verbose cs = ds
  -- The flag is handed on to groups and used for dots. Nothing else looks at it.
  split
  case h_2 => exact (readGroup_withDots _).map fun _ _ h => .some h
  case h_5 =>
    simp only [readClass_withDots]
    exact .refl hrefl _
  case h_11 rest =>
    unfold Primitive.toPattern checkSet
    simp only [isAscii_dotSet, Bool.or_false, hunicode]
    split
    · exact .ok (.some ⟨.item ⟨nofun, nofun⟩, rfl⟩)
    · exact .error _ _
  all_goals exact .refl hrefl _

/-! ## The builder -/

/-- Levels that differ in what dots match. -/
structure Level.Alike (l l' : Level) : Prop where
  flags : ∃ dotAll, l'.flags = l.flags.withDots dotAll
  captures : l'.captures = l.captures
  items : List.Forall₂ (fun p q : Pattern => p = .empty ↔ q = .empty) l.items l'.items

/-- Builders that differ in what dots match. -/
structure Builder.Alike (b b' : Builder) : Prop where
  level : b.level.Alike b'.level
  outer : List.Forall₂ Level.Alike b.outer b'.outer
  names : b'.names = b.names

/-- Levels stay alike with a pattern more on each. -/
theorem Level.Alike.push {l l' : Level} {p q : Pattern} (h : l.Alike l')
    (empty : p = .empty ↔ q = .empty) : (l.push p).Alike (l'.push q) :=
  ⟨h.flags, h.captures, .cons empty h.items⟩

/-- Levels stay alike with their last pattern repeated, or it can be repeated in neither. -/
theorem Level.Alike.repeatLast {l l' : Level} (h : l.Alike l') (min : Nat) (max : Option Nat)
    (greedy : Bool) :
    Except.Agree Level.Alike (l.repeatLast min max greedy) (l'.repeatLast min max greedy) := by
  obtain ⟨flags, captures, alternatives, items⟩ := l
  obtain ⟨flags', captures', alternatives', items'⟩ := l'
  cases h.items with
  | nil => exact .error _ _
  | cons hempty hitems =>
    rename_i p q ps qs
    -- nothing is repeated where the flags have been set, which both levels agree on
    by_cases hp : p = .empty
    · obtain rfl := hp
      obtain rfl := hempty.mp rfl
      exact .error _ _
    · have hq : q ≠ .empty := mt hempty.mpr hp
      unfold Level.repeatLast
      split
      next heq => cases heq
      next heq => exact absurd (List.head_eq_of_cons_eq heq) hp
      next heq =>
        cases heq
        exact .ok ⟨h.flags, h.captures, .cons ⟨nofun, nofun⟩ hitems⟩

/-- Builders that are alike stay so over tokens that are alike, or both fail. -/
theorem Builder.Alike.step {b b' : Builder} {t t' : Token} (h : b.Alike b') (ht : t.Alike t') :
    Except.Agree Builder.Alike (b.step t) (b'.step t') := by
  obtain ⟨level, outer, names⟩ := b
  obtain ⟨level', outer', names'⟩ := b'
  obtain ⟨hlevel, houter, rfl⟩ := h
  cases ht with
  | item hempty => exact .ok ⟨hlevel.push hempty, houter, rfl⟩
  | repetition min max greedy =>
    exact (hlevel.repeatLast min max greedy).map fun _ _ h => ⟨h, houter, rfl⟩
  | bar => exact .ok ⟨⟨hlevel.flags, hlevel.captures, .nil⟩, houter, rfl⟩
  | openGroup flags dotAll captures name =>
    unfold Builder.step
    simp only
    split
    next => exact .error _ _
    next => exact .ok ⟨⟨⟨dotAll, rfl⟩, rfl, .nil⟩, .cons hlevel houter, rfl⟩
  | closeGroup =>
    cases houter with
    | nil => exact .error _ _
    | cons hparent houter => exact .ok ⟨hparent.push ⟨nofun, nofun⟩, houter, rfl⟩
  | setFlags flags dotAll =>
    exact .ok ⟨⟨⟨dotAll, rfl⟩, hlevel.captures, .cons .rfl hlevel.items⟩, houter, rfl⟩

/-- Builders that are alike stay so over a text, or both fail. -/
theorem Builder.Alike.run {b b' : Builder} (h : b.Alike b') (table : PropertyTable) (fuel : Nat)
    (cs : List Char) :
    Except.Agree Builder.Alike (b.run table fuel cs) (b'.run table fuel cs) := by
  induction fuel generalizing b b' cs with
  | zero => exact .ok h
  | succ fuel ih =>
    rw [Builder.run, Builder.run]
    obtain ⟨dotAll, hflags⟩ := h.level.flags
    rw [hflags]
    refine (nextToken_withDots cs).bind fun x y hxy => ?_
    cases hxy with
    | none => exact .ok h
    | some hxy =>
      obtain ⟨ht, hrest⟩ := hxy
      refine (h.step ht).bind fun b b' h => ?_
      rw [hrest]
      exact ih h _

end LayeredConfig.Pattern
