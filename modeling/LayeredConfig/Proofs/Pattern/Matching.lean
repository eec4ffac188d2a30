import LayeredConfig.Pattern.Match
import Mathlib.Data.Finset.Card
import Mathlib.Data.Finset.Range

/-!
# What a pattern matches

`Spans text p i j` says that a match of `p` in the text can start at place `i` and end at place `j`.
It is defined by recursion on the pattern and knows nothing of sets of places. The matcher moves a
whole set of places at once (`advance`), and finds exactly the places at which such matches end
(`advance_computes`).

The repetition is what takes an argument. The matcher searches breadth first, from the places that
the last step found (`Frontier`), and stops after as many steps as there are places: each step
before has found a new place, so that by then nothing is left to find (`closed_stepAtMost`).
-/

namespace LayeredConfig.Pattern

/-! ## Matches -/

/-- The character before a place. -/
def charBefore (text : List Char) : (place : Nat) → Option Char
  | 0 => none
  | i + 1 => text[i]?

/-- Steps of a relation, `n` of them. -/
def Times (R : Nat → Nat → Prop) : (n : Nat) → (i j : Nat) → Prop
  | 0, i, j => i = j
  | n + 1, i, j => ∃ k, R i k ∧ Times R n k j

mutual

/-- A match of a pattern can start at place `i` and end at place `j`. -/
def Spans (text : List Char) : (p : Pattern) → (i j : Nat) → Prop
  | .empty, i, j => i = j
  | .oneOf cls, i, j => j = i + 1 ∧ ∃ c, text[i]? = some c ∧ cls.set.mem c
  | .assert a, i, j => i = j ∧ a.holds (charBefore text i) text[i]?
  | .concat ps, i, j => SpansAll text ps i j
  | .alternation ps, i, j => SpansAny text ps i j
  | .repetition p min max _, i, j =>
    ∃ more, (∀ bound, max = some bound → more ≤ bound - min) ∧
      Times (fun i j => Spans text p i j) (min + more) i j
  | .group p _, i, j => Spans text p i j

/-- Matches of some patterns, one after the other. -/
def SpansAll (text : List Char) : (ps : List Pattern) → (i j : Nat) → Prop
  | [], i, j => i = j
  | p :: ps, i, j => ∃ k, Spans text p i k ∧ SpansAll text ps k j

/-- A match of any of some patterns. -/
def SpansAny (text : List Char) : (ps : List Pattern) → (i j : Nat) → Prop
  | [], _, _ => False
  | p :: ps, i, j => Spans text p i j ∨ SpansAny text ps i j

end

namespace Places

variable {a b places : Places} {i j n : Nat}

/-- A place is in a set. -/
def Mem (places : Places) (j : Nat) : Prop :=
  places[j]? = some true

/-- A place in a set is a place of the text. -/
theorem Mem.lt_length (h : places.Mem j) : j < places.length :=
  (List.getElem?_eq_some_iff.mp h).1

/-- Sets of places of one text are about the same places. -/
theorem exists_getElem? (hlength : a.length = b.length) {x : Bool} (h : a[j]? = some x) :
    ∃ y, b[j]? = some y :=
  ⟨_, List.getElem?_eq_getElem (hlength ▸ (List.getElem?_eq_some_iff.mp h).1)⟩

/-- A place is in a union exactly if it is in one of the sets. -/
theorem mem_union (hlength : a.length = b.length) :
    (a.union b).Mem j ↔ a.Mem j ∨ b.Mem j := by
  unfold Mem union
  rw [List.getElem?_zipWith_eq_some]
  constructor
  · rintro ⟨x, y, hx, hy, hor⟩
    rcases Bool.or_eq_true_iff.mp hor with rfl | rfl
    · exact .inl hx
    · exact .inr hy
  · rintro (ha | hb)
    · obtain ⟨y, hy⟩ := exists_getElem? hlength ha
      exact ⟨true, y, ha, hy, rfl⟩
    · obtain ⟨x, hx⟩ := exists_getElem? hlength.symm hb
      exact ⟨x, true, hx, hb, Bool.or_true x⟩

/-- A place is in a difference exactly if it is in the first set and not in the second one. -/
theorem mem_diff (hlength : a.length = b.length) :
    (a.diff b).Mem j ↔ a.Mem j ∧ ¬ b.Mem j := by
  unfold Mem diff
  rw [List.getElem?_zipWith_eq_some]
  constructor
  · rintro ⟨x, y, hx, hy, hand⟩
    obtain ⟨rfl, hnot⟩ := Bool.and_eq_true_iff.mp hand
    refine ⟨hx, fun hb => ?_⟩
    obtain rfl := Option.some.inj (hy.symm.trans hb)
    cases hnot
  · rintro ⟨ha, hb⟩
    obtain ⟨y, hy⟩ := exists_getElem? hlength ha
    refine ⟨true, y, ha, hy, ?_⟩
    cases y with
    | true => exact absurd hy hb
    | false => rfl

/-- A union is about as many places as its sets. -/
theorem length_union (hlength : a.length = b.length) : (a.union b).length = a.length := by
  rw [union, List.length_zipWith, ← hlength, Nat.min_self]

/-- A difference is about as many places as its sets. -/
theorem length_diff (hlength : a.length = b.length) : (a.diff b).length = a.length := by
  rw [diff, List.length_zipWith, ← hlength, Nat.min_self]

/-- A set has a place exactly if one is marked. -/
theorem exists_mem_iff : (∃ j, places.Mem j) ↔ places.contains true = true := by
  rw [List.contains_iff_mem, List.mem_iff_getElem?]
  rfl

/-- A set has no places exactly if none is in it. -/
theorem isNone_iff : places.isNone = true ↔ ∀ j, ¬ places.Mem j := by
  rw [isNone, Bool.not_eq_true', ← Bool.not_eq_true, ← exists_mem_iff, not_exists]

/-- No place is in the empty set. -/
theorem not_mem_none : ¬ (none places).Mem j := by
  intro h
  obtain ⟨_, -, hfalse⟩ := List.mem_map.mp (List.mem_of_getElem? h)
  cases hfalse

/-- All places are in the full set. -/
theorem mem_replicate : Mem (List.replicate n true) j ↔ j < n := by
  simp [Mem, List.getElem?_replicate]

/-- The places of a set. -/
def members (places : Places) : Finset Nat :=
  (Finset.range places.length).filter fun j => places[j]? = some true

/-- The members of a set are the places in it. -/
theorem mem_members : j ∈ places.members ↔ places.Mem j := by
  rw [members, Finset.mem_filter, Finset.mem_range]
  exact ⟨fun h => h.2, fun h => ⟨h.lt_length, h⟩⟩

/-- A set with as many places as the text has them all. -/
theorem mem_of_length_le_card (h : places.length ≤ places.members.card)
    (hj : j < places.length) : places.Mem j := by
  have hall : places.members = Finset.range places.length :=
    Finset.eq_of_subset_of_card_le (Finset.filter_subset _ _) (by rwa [Finset.card_range])
  rw [← mem_members, hall]
  exact Finset.mem_range.mpr hj

end Places

/-! ## Steps -/

/-- On sets of places of a text with `n` places, `step` leads to where `R` leads. -/
structure Computes (n : Nat) (step : Places → Places) (R : Nat → Nat → Prop) : Prop where
  length : ∀ places, places.length = n → (step places).length = n
  mem : ∀ places, places.length = n → ∀ j, (step places).Mem j ↔ ∃ i, places.Mem i ∧ R i j

variable {R S : Nat → Nat → Prop} {step step' : Places → Places} {n k i j : Nat}
  {seen last places : Places}

namespace Computes

/-- A step leads to places of the text. -/
theorem lt (h : Computes n step R) (hplaces : places.length = n) (hi : places.Mem i)
    (hR : R i j) : j < n := by
  have hj := ((h.mem places hplaces j).mpr ⟨i, hi, hR⟩).lt_length
  rwa [h.length places hplaces] at hj

/-- Taking no step leads to the same places. -/
theorem refl : Computes n (fun places => places) (· = ·) where
  length _ h := h
  mem _ _ _ := ⟨fun h => ⟨_, h, rfl⟩, by
    rintro ⟨_, h, rfl⟩
    exact h⟩

/-- A step after another one leads where the relations lead one after the other. -/
theorem comp (h : Computes n step R) (h' : Computes n step' S) :
    Computes n (fun places => step' (step places)) (fun i j => ∃ k, R i k ∧ S k j) where
  length places hplaces := h'.length _ (h.length places hplaces)
  mem places hplaces j := by
    rw [h'.mem _ (h.length places hplaces) j]
    constructor
    · rintro ⟨k, hk, hS⟩
      obtain ⟨i, hi, hR⟩ := (h.mem places hplaces k).mp hk
      exact ⟨i, hi, k, hR, hS⟩
    · rintro ⟨i, hi, k, hR, hS⟩
      exact ⟨k, (h.mem places hplaces k).mpr ⟨i, hi, hR⟩, hS⟩

/-- The union of two steps leads where either relation leads. -/
theorem union (h : Computes n step R) (h' : Computes n step' S) :
    Computes n (fun places => (step places).union (step' places)) (fun i j => R i j ∨ S i j) where
  length places hplaces := by
    have hsame := (h.length places hplaces).trans (h'.length places hplaces).symm
    rw [Places.length_union hsame, h.length places hplaces]
  mem places hplaces j := by
    have hsame := (h.length places hplaces).trans (h'.length places hplaces).symm
    rw [Places.mem_union hsame, h.mem places hplaces, h'.mem places hplaces, ← exists_or]
    simp only [and_or_left]

/-- Repeated steps lead where the relation leads repeatedly. -/
theorem iterate (h : Computes n step R) (k : Nat) : Computes n step^[k] (Times R k) := by
  induction k with
  | zero => exact refl
  | succ k ih => exact h.comp ih

/-- Once a step changes nothing, no later one does. -/
theorem stepTimes_eq_iterate (step : Places → Places) (k : Nat) (places : Places) :
    stepTimes step k places = step^[k] places := by
  induction k generalizing places with
  | zero => rfl
  | succ k ih =>
    rw [stepTimes, Function.iterate_succ_apply]
    by_cases hsame : step places = places
    · rw [if_pos hsame, hsame, Function.iterate_fixed hsame]
    · rw [if_neg hsame, ih]

end Computes

/-! ## At most so many steps -/

/-- Steps of a relation are taken in two parts. -/
theorem times_add {m : Nat} : Times R (k + m) i j ↔ ∃ i', Times R k i i' ∧ Times R m i' j := by
  induction k generalizing i with
  | zero => simp [Times]
  | succ k ih =>
    rw [Nat.succ_add, Times]
    simp only [ih, Times]
    constructor
    · rintro ⟨a, hR, b, hfirst, hrest⟩
      exact ⟨b, ⟨a, hR, hfirst⟩, hrest⟩
    · rintro ⟨b, ⟨a, hR, hfirst⟩, hrest⟩
      exact ⟨a, hR, b, hfirst, hrest⟩

/-- A set that a relation does not leave is not left by any number of its steps. -/
theorem mem_of_times (hclosed : ∀ i j, places.Mem i → R i j → places.Mem j) (hi : places.Mem i)
    (htimes : Times R k i j) : places.Mem j := by
  induction k generalizing i with
  | zero => exact htimes ▸ hi
  | succ k ih =>
    obtain ⟨i', hR, htimes⟩ := htimes
    exact ih (hclosed i i' hi hR) htimes

/-- Where the search is: of all places `seen` so far, only the `last` ones can lead to others. -/
structure Frontier (R : Nat → Nat → Prop) (n : Nat) (seen last : Places) : Prop where
  seenLength : seen.length = n
  lastLength : last.length = n
  subset : ∀ i, last.Mem i → seen.Mem i
  closed : ∀ i j, seen.Mem i → ¬ last.Mem i → R i j → seen.Mem j

namespace Frontier

/-- At first, all places seen can lead to others. -/
theorem start (hplaces : places.length = n) : Frontier R n places places :=
  ⟨hplaces, hplaces, fun _ h => h, fun _ _ h hnot => absurd h hnot⟩

/-- What is found new is what the places seen lead to. -/
theorem mem_fresh (h : Frontier R n seen last) (hstep : Computes n step R) :
    ((step last).diff seen).Mem j ↔ (∃ i, seen.Mem i ∧ R i j) ∧ ¬ seen.Mem j := by
  have hlength := (hstep.length last h.lastLength).trans h.seenLength.symm
  rw [Places.mem_diff hlength, hstep.mem last h.lastLength]
  refine and_congr_left fun hnew => ⟨?_, ?_⟩
  · rintro ⟨i, hi, hR⟩
    exact ⟨i, h.subset i hi, hR⟩
  · rintro ⟨i, hi, hR⟩
    refine ⟨i, ?_, hR⟩
    by_contra hnot
    exact hnew (h.closed i j hi hnot hR)

/-- What is new is about as many places. -/
theorem length_fresh (h : Frontier R n seen last) (hstep : Computes n step R) :
    ((step last).diff seen).length = n := by
  have hlength := (hstep.length last h.lastLength).trans h.seenLength.symm
  rw [Places.length_diff hlength, hstep.length last h.lastLength]

/-- Behind a step, what has been seen and what it leads to has been seen. -/
theorem mem_next (h : Frontier R n seen last) (hstep : Computes n step R) :
    (seen.union ((step last).diff seen)).Mem j ↔ seen.Mem j ∨ ∃ i, seen.Mem i ∧ R i j := by
  rw [Places.mem_union (h.seenLength.trans (h.length_fresh hstep).symm), h.mem_fresh hstep]
  constructor
  · rintro (hseen | ⟨hfrom, -⟩)
    · exact .inl hseen
    · exact .inr hfrom
  · rintro (hseen | hfrom)
    · exact .inl hseen
    · by_cases hseen : seen.Mem j
      · exact .inl hseen
      · exact .inr ⟨hfrom, hseen⟩

/-- A step moves the frontier to the places that are new. -/
theorem next (h : Frontier R n seen last) (hstep : Computes n step R) :
    Frontier R n (seen.union ((step last).diff seen)) ((step last).diff seen) where
  seenLength := by
    rw [Places.length_union (h.seenLength.trans (h.length_fresh hstep).symm), h.seenLength]
  lastLength := h.length_fresh hstep
  subset i hi := (h.mem_next hstep).mpr (.inr ((h.mem_fresh hstep).mp hi).1)
  closed i j hi hold hR := by
    refine (h.mem_next hstep).mpr (.inr ⟨i, ?_, hR⟩)
    rcases (h.mem_next hstep).mp hi with hseen | hfrom
    · exact hseen
    · by_contra hnew
      exact hold ((h.mem_fresh hstep).mpr ⟨hfrom, hnew⟩)

/-- Where nothing new is found, the places seen lead to none but themselves. -/
theorem closed_of_isNone (h : Frontier R n seen last) (hstep : Computes n step R)
    (hnone : ((step last).diff seen).isNone = true) (hi : seen.Mem i) (hR : R i j) :
    seen.Mem j := by
  by_contra hnew
  exact Places.isNone_iff.mp hnone j ((h.mem_fresh hstep).mpr ⟨⟨i, hi, hR⟩, hnew⟩)

/-- Each step that finds anything finds one place more. -/
theorem card_lt (h : Frontier R n seen last) (hstep : Computes n step R)
    (hsome : ¬ ((step last).diff seen).isNone = true) :
    seen.members.card < (seen.union ((step last).diff seen)).members.card := by
  obtain ⟨j, hj⟩ := not_forall_not.mp (mt Places.isNone_iff.mpr hsome)
  obtain ⟨hfrom, hnew⟩ := (h.mem_fresh hstep).mp hj
  refine Finset.card_lt_card (Finset.ssubset_iff.mpr ⟨j, ?_, fun i hi => ?_⟩)
  · rwa [Places.mem_members]
  · rw [Places.mem_members, h.mem_next hstep]
    rcases Finset.mem_insert.mp hi with rfl | hi
    · exact .inr hfrom
    · exact .inl (Places.mem_members.mp hi)

/-- The search stays about as many places. -/
theorem length_stepAtMost (h : Frontier R n seen last) (hstep : Computes n step R) :
    (stepAtMost step k seen last).length = n := by
  induction k generalizing seen last with
  | zero => exact h.seenLength
  | succ k ih =>
    rw [stepAtMost]
    by_cases hnone : ((step last).diff seen).isNone = true
    · rw [if_pos hnone]
      exact h.seenLength
    · rw [if_neg hnone]
      exact ih (h.next hstep)

/-- After at most `k` further steps, what has been seen is what so many steps lead to from the
places seen before. -/
theorem mem_stepAtMost (h : Frontier R n seen last) (hstep : Computes n step R) :
    (stepAtMost step k seen last).Mem j ↔ ∃ m, m ≤ k ∧ ∃ i, seen.Mem i ∧ Times R m i j := by
  induction k generalizing seen last with
  | zero =>
    constructor
    · exact fun hj => ⟨0, Nat.le_refl 0, j, hj, rfl⟩
    · rintro ⟨m, hm, i, hi, htimes⟩
      obtain rfl := Nat.le_zero.mp hm
      exact htimes ▸ hi
  | succ k ih =>
    rw [stepAtMost]
    by_cases hnone : ((step last).diff seen).isNone = true
    · -- The search stops early, and no number of further steps would find more.
      rw [if_pos hnone]
      refine ⟨fun hj => ⟨0, Nat.zero_le _, j, hj, rfl⟩, ?_⟩
      rintro ⟨m, -, i, hi, htimes⟩
      exact mem_of_times (fun _ _ => h.closed_of_isNone hstep hnone) hi htimes
    · rw [if_neg hnone, ih (h.next hstep)]
      constructor
      · rintro ⟨m, hm, i, hi, htimes⟩
        -- the place was there before the first step, or is one step away from one that was
        rcases (h.mem_next hstep).mp hi with hseen | ⟨i', hi', hR⟩
        · exact ⟨m, Nat.le_succ_of_le hm, i, hseen, htimes⟩
        · exact ⟨m + 1, Nat.succ_le_succ hm, i', hi', i, hR, htimes⟩
      · rintro ⟨m, hm, i, hi, htimes⟩
        cases m with
        | zero => exact ⟨0, Nat.zero_le _, i, (h.mem_next hstep).mpr (.inl hi), htimes⟩
        | succ m =>
          obtain ⟨i', hR, htimes⟩ := htimes
          have hi' := (h.mem_next hstep).mpr (.inr ⟨i, hi, hR⟩)
          exact ⟨m, Nat.le_of_succ_le_succ hm, i', hi', htimes⟩

/-- The search is over when there are no more places that are not seen than steps. -/
theorem closed_stepAtMost (h : Frontier R n seen last) (hstep : Computes n step R)
    (hcard : n ≤ k + seen.members.card) (hi : (stepAtMost step k seen last).Mem i) (hR : R i j) :
    (stepAtMost step k seen last).Mem j := by
  induction k generalizing seen last with
  | zero =>
    -- With no step left every place has been seen.
    have hall : seen.length ≤ seen.members.card := by
      rw [h.seenLength]
      omega
    exact Places.mem_of_length_le_card hall (h.seenLength ▸ hstep.lt h.seenLength hi hR)
  | succ k ih =>
    rw [stepAtMost] at hi ⊢
    by_cases hnone : ((step last).diff seen).isNone = true
    · rw [if_pos hnone] at hi ⊢
      exact h.closed_of_isNone hstep hnone hi hR
    · rw [if_neg hnone] at hi ⊢
      have hmore := h.card_lt hstep hnone
      exact ih (h.next hstep) (by omega) hi

end Frontier

namespace Computes

/-- As many steps as there are places lead everywhere that more steps lead to. -/
theorem upTo (h : Computes n step R) (limit : Option Nat) :
    Computes n (fun places => stepAtMost step (limit.elim n (Nat.min · n)) places places)
      (fun i j => ∃ m, (∀ bound, limit = some bound → m ≤ bound) ∧ Times R m i j) where
  length places hplaces := (Frontier.start hplaces).length_stepAtMost h
  mem places hplaces j := by
    have hstart : Frontier R n places places := .start hplaces
    constructor
    · intro hj
      obtain ⟨m, hm, i, hi, htimes⟩ := (hstart.mem_stepAtMost h).mp hj
      refine ⟨i, hi, m, ?_, htimes⟩
      rintro bound rfl
      exact Nat.le_trans hm (Nat.min_le_left _ _)
    · rintro ⟨i, hi, m, hm, htimes⟩
      by_cases hfew : m ≤ limit.elim n (Nat.min · n)
      · exact (hstart.mem_stepAtMost h).mpr ⟨m, hfew, i, hi, htimes⟩
      · -- more steps than there are places: they lead nowhere that as many steps as places do not
        have hall : limit.elim n (Nat.min · n) = n := by
          cases limit with
          | none => rfl
          | some bound =>
            have hle : ¬ m ≤ min bound n := hfew
            have hm : m ≤ bound := hm bound rfl
            exact Nat.min_eq_right (by omega)
        rw [hall]
        have hi : (stepAtMost step n places places).Mem i :=
          (hstart.mem_stepAtMost h).mpr ⟨0, Nat.zero_le _, i, hi, rfl⟩
        exact mem_of_times (fun _ _ => hstart.closed_stepAtMost h (Nat.le_add_right _ _)) hi htimes

/-- A step computes any equivalent relation. -/
theorem congr (h : Computes n step R) (hstep : ∀ places, places.length = n →
    step' places = step places) (hRS : ∀ i j, R i j ↔ S i j) : Computes n step' S where
  length places hplaces := by rw [hstep places hplaces, h.length places hplaces]
  mem places hplaces j := by
    rw [hstep places hplaces, h.mem places hplaces]
    simp only [hRS]

/-- When the last of the steps that have to be made finds nothing new, the search after them finds
nothing either, so that it may be left out. -/
theorem stepBetween_eq (h : Computes n step R) (bound : Nat) (max : Option Nat) (min : Nat)
    (hplaces : places.length = n) :
    Pattern.stepBetween step bound max min places =
      stepAtMost step (stepBetween.more bound max min) (step^[min] places) (step^[min] places) := by
  cases min with
  | zero => rfl
  | succ min =>
    rw [Pattern.stepBetween, stepTimes_eq_iterate, Function.iterate_succ_apply']
    have hbefore := (h.iterate min).length places hplaces
    have hafter := h.length _ hbefore
    by_cases hnone : ((step (step^[min] places)).diff (step^[min] places)).isNone = true
    · rw [if_pos hnone]
      cases stepBetween.more bound max (min + 1) with
      | zero => rfl
      | succ k =>
        -- the last of the first steps leads nowhere new, and so does the next one
        rw [stepAtMost, if_pos]
        rw [Places.isNone_iff] at hnone ⊢
        intro j hj
        obtain ⟨hj, hnew⟩ := (Places.mem_diff ((h.length _ hafter).trans hafter.symm)).mp hj
        obtain ⟨i, hi, hR⟩ := (h.mem _ hafter j).mp hj
        refine hnew ((h.mem _ hbefore j).mpr ⟨i, ?_, hR⟩)
        by_contra hold
        exact hnone i ((Places.mem_diff (hafter.trans hbefore.symm)).mpr ⟨hi, hold⟩)
    · rw [if_neg hnone]

/-- A repetition leads where the relation leads for a number of times that is allowed. -/
theorem stepBetween (h : Computes n step R) (max : Option Nat) (min : Nat) :
    Computes n (Pattern.stepBetween step n max min)
      (fun i j => ∃ more, (∀ bound, max = some bound → more ≤ bound - min) ∧
        Times R (min + more) i j) := by
  have hmore : stepBetween.more n max min = (max.map (· - min)).elim n (Nat.min · n) := by
    cases max <;> rfl
  refine ((h.iterate min).comp (h.upTo (max.map (· - min)))).congr
    (fun places hplaces => by rw [h.stepBetween_eq n max min hplaces, hmore]) fun i j => ?_
  simp only [times_add, Option.map_eq_some_iff, forall_exists_index, and_imp,
    forall_apply_eq_imp_iff₂]
  constructor
  · rintro ⟨k, hfirst, more, hlimit, hrest⟩
    exact ⟨more, hlimit, k, hfirst, hrest⟩
  · rintro ⟨more, hlimit, k, hfirst, hrest⟩
    exact ⟨k, hfirst, more, hlimit, hrest⟩

end Computes

/-! ## The matcher -/

/-- At each place stand the characters before and behind it. -/
theorem getElem?_sides {text : List Char} (hi : i ≤ text.length) :
    (sides text)[i]? = some (charBefore text i, text[i]?) := by
  rw [sides, List.getElem?_zip_eq_some]
  constructor
  · cases i with
    | zero => rfl
    | succ i => simp [charBefore, List.getElem?_eq_getElem (Nat.lt_of_succ_le hi)]
  · rcases Nat.lt_or_eq_of_le hi with hlt | rfl
    · simp [List.getElem?_append_left, hlt]
    · simp

/-- A class leads over a character of it. -/
theorem computes_oneOf (text : List Char) (cls : CharClass) :
    Computes (text.length + 1) (advance text (.oneOf cls)) (Spans text (.oneOf cls)) where
  length places hplaces := by
    rw [advance, List.length_cons, List.length_zipWith, hplaces, Nat.min_eq_right (Nat.le_succ _)]
  mem places hplaces j := by
    cases j with
    | zero =>
      constructor
      · intro hfirst
        cases hfirst
      · rintro ⟨i, -, hnext, -⟩
        cases hnext
    | succ j =>
      rw [advance, Places.Mem, List.getElem?_cons_succ, List.getElem?_zipWith_eq_some]
      constructor
      · rintro ⟨here, c, hhere, hc, hand⟩
        obtain ⟨rfl, hmem⟩ := Bool.and_eq_true_iff.mp hand
        exact ⟨j, hhere, rfl, c, hc, hmem⟩
      · rintro ⟨i, hi, hnext, c, hc, hmem⟩
        obtain rfl := Nat.succ.inj hnext
        exact ⟨true, c, hi, hc, hmem⟩

/-- An assertion leads nowhere else, and only where it holds. -/
theorem computes_assert (text : List Char) (a : Assertion) :
    Computes (text.length + 1) (advance text (.assert a)) (Spans text (.assert a)) where
  length places hplaces := by
    rw [advance, List.length_zipWith, hplaces, sides, List.length_zip]
    simp
  mem places hplaces j := by
    have hle {i : Nat} {here : Bool} (hi : places[i]? = some here) : i ≤ text.length := by
      have hlt := (List.getElem?_eq_some_iff.mp hi).1
      omega
    rw [advance, Places.Mem, List.getElem?_zipWith_eq_some]
    constructor
    · rintro ⟨here, around, hhere, haround, hand⟩
      obtain rfl := Option.some.inj ((getElem?_sides (hle hhere)).symm.trans haround)
      obtain ⟨rfl, hholds⟩ := Bool.and_eq_true_iff.mp hand
      exact ⟨j, hhere, rfl, hholds⟩
    · rintro ⟨i, hi, rfl, hholds⟩
      exact ⟨true, _, hi, getElem?_sides (hle hi), hholds⟩

mutual

/-- The places that a pattern leads to are those at which its matches end. -/
theorem advance_computes (text : List Char) :
    ∀ p : Pattern, Computes (text.length + 1) (advance text p) (Spans text p)
  | .empty => .congr .refl (fun _ _ => rfl) fun _ _ => Iff.rfl
  | .oneOf cls => computes_oneOf text cls
  | .assert a => computes_assert text a
  | .concat ps => (advanceAll_computes text ps).congr (fun _ _ => rfl) fun _ _ => Iff.rfl
  | .alternation ps => (advanceAny_computes text ps).congr (fun _ _ => rfl) fun _ _ => Iff.rfl
  | .repetition p min max _ =>
    ((advance_computes text p).stepBetween max min).congr (fun _ _ => rfl) fun _ _ => Iff.rfl
  | .group p _ => (advance_computes text p).congr (fun _ _ => rfl) fun _ _ => Iff.rfl

/-- So it is for patterns one after the other. -/
theorem advanceAll_computes (text : List Char) :
    ∀ ps : List Pattern, Computes (text.length + 1) (advanceAll text ps) (SpansAll text ps)
  | [] => .congr .refl (fun _ _ => rfl) fun _ _ => Iff.rfl
  | p :: ps => ((advance_computes text p).comp (advanceAll_computes text ps)).congr
      (fun _ _ => rfl) fun _ _ => Iff.rfl

/-- So it is for any of some patterns. -/
theorem advanceAny_computes (text : List Char) :
    ∀ ps : List Pattern, Computes (text.length + 1) (advanceAny text ps) (SpansAny text ps)
  | [] => ⟨fun _ h => by rw [advanceAny, Places.none, List.length_map, h], fun _ _ _ =>
      ⟨fun h => absurd h Places.not_mem_none, fun ⟨_, _, h⟩ => h.elim⟩⟩
  | p :: ps => ((advance_computes text p).union (advanceAny_computes text ps)).congr
      (fun _ _ => rfl) fun _ _ => Iff.rfl

end

/-- A match that starts in a text ends in it. -/
theorem Spans.le {text : List Char} {p : Pattern} (h : Spans text p i j) (hi : i ≤ text.length) :
    j ≤ text.length := by
  have hplace : Places.Mem (List.replicate (text.length + 1) true) i :=
    Places.mem_replicate.mpr (Nat.lt_succ_of_le hi)
  exact Nat.le_of_lt_succ ((advance_computes text p).lt List.length_replicate hplace h)

end LayeredConfig.Pattern
