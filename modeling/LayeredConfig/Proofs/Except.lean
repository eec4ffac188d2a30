/-!
# Computations that may fail

When a chain of computations succeeds, each of its links does, and when it fails, one of them does.
These are the equations by which the proofs take such a chain apart. Two chains can be compared link
by link: `Corresponds φ` says that they succeed together, and how their results go together; in
`Agree R` the results are related, and neither determines the other.
-/

namespace LayeredConfig

variable {ε : Type u} {ε' : Type v} {α : Type w} {β : Type w}

/-- A chain succeeds exactly if both of its links do. -/
theorem Except.bind_eq_ok_iff {x : Except ε α} {f : α → Except ε β} {b : β} :
    (x >>= f) = .ok b ↔ ∃ a, x = .ok a ∧ f a = .ok b := by
  cases x <;> simp [bind, Except.bind]

/-- A chain fails exactly if its first link does, or the second one after it. -/
theorem Except.bind_eq_error_iff {x : Except ε α} {f : α → Except ε β} {e : ε} :
    (x >>= f) = .error e ↔ x = .error e ∨ ∃ a, x = .ok a ∧ f a = .error e := by
  cases x <;> simp [bind, Except.bind]

/-- A mapped computation succeeds exactly if the computation does. -/
theorem Except.map_eq_ok_iff {x : Except ε α} {f : α → β} {b : β} :
    x.map f = .ok b ↔ ∃ a, x = .ok a ∧ f a = b := by
  cases x <;> simp [Except.map]

/-- A mapped computation fails with the same error. -/
theorem Except.map_eq_error_iff {x : Except ε α} {f : α → β} {e : ε} :
    x.map f = .error e ↔ x = .error e := by
  cases x <;> simp [Except.map]

/-- Mapping errors leaves a success as it is. -/
theorem Except.mapError_eq_ok_iff {x : Except ε α} {f : ε → ε'} {a : α} :
    x.mapError f = .ok a ↔ x = .ok a := by
  cases x with
  | error e => exact ⟨nofun, nofun⟩
  | ok b =>
    show Except.ok b = Except.ok a ↔ Except.ok b = Except.ok a
    rw [Except.ok.injEq, Except.ok.injEq]

/-- What a computation ends in: a result that satisfies `P`, or a failure that satisfies `F`. -/
def Except.Yields (F : ε → Prop) (P : α → Prop) : Except ε α → Prop
  | .ok a => P a
  | .error e => F e

/-- What a computation yields is what holds of its result and of its error. -/
theorem Except.yields_iff {F : ε → Prop} {P : α → Prop} {x : Except ε α} :
    Except.Yields F P x ↔ (∀ a, x = .ok a → P a) ∧ ∀ e, x = .error e → F e := by
  cases x <;> simp [Except.Yields]

/-- What follows from what a result is known to be is known of it, too. -/
theorem Except.Yields.imp_ok {F : ε → Prop} {P Q : α → Prop} {x : Except ε α}
    (h : Except.Yields F P x) (hPQ : ∀ a, P a → Q a) : Except.Yields F Q x := by
  cases x with
  | error e => exact h
  | ok a => exact hPQ a h

/-- An optional result is there exactly if the computation succeeds with it. -/
theorem Except.toOption_eq_some_iff {x : Except ε α} {a : α} :
    x.toOption = some a ↔ x = .ok a := by
  cases x <;> simp [Except.toOption]

/-- A computation whose result passes a test succeeds. The test decides both at once where the
computation can be run. -/
theorem Except.exists_of_any_toOption (x : Except ε α) (p : α → Bool)
    (h : x.toOption.any p = true) : ∃ a, x = .ok a ∧ p a = true := by
  obtain ⟨a, ha, hp⟩ := (Option.any_eq_true p x.toOption).mp h
  exact ⟨a, Except.toOption_eq_some_iff.mp ha, hp⟩

/-! ## Computations that succeed together -/

/-- Both computations fail, or both succeed and `φ` takes the result of the first to that of the
second. -/
inductive Except.Corresponds {α : Type w} {β : Type w} (φ : α → β) : Except ε α → Except ε' β → Prop
  | ok (a : α) : Except.Corresponds φ (.ok a) (.ok (φ a))
  | error (e : ε) (e' : ε') : Except.Corresponds φ (.error e) (.error e')

namespace Except.Corresponds

variable {α' β' γ : Type w} {ε₁ : Type u} {ε₁' : Type v} {φ : α → β} {ψ : α' → β'}
  {x : Except ε α} {y : Except ε' β}

/-- Of two computations that correspond, both succeed or both fail. -/
theorem exists_ok_iff (h : Except.Corresponds φ x y) : (∃ b, y = .ok b) ↔ ∃ a, x = .ok a := by
  cases h with
  | ok a => exact ⟨fun _ => ⟨a, rfl⟩, fun _ => ⟨φ a, rfl⟩⟩
  | error e e' =>
    constructor
    · rintro ⟨b, hb⟩
      cases hb
    · rintro ⟨a, ha⟩
      cases ha

/-- The results of computations that correspond do. -/
theorem eq_of_ok {a : α} {b : β} (h : Except.Corresponds φ x y) (hx : x = .ok a)
    (hy : y = .ok b) : b = φ a := by
  cases h with
  | ok a' =>
    cases hx
    cases hy
    rfl
  | error e e' => cases hx

/-- A mapped computation corresponds to the computation. -/
theorem of_eq_map {y : Except ε β} (h : y = x.map φ) : Except.Corresponds φ x y := by
  subst h
  cases x with
  | ok a => exact .ok a
  | error e => exact .error e e

/-- Two computations that fail correspond, whatever their errors are. -/
theorem of_ne_ok (hx : ∀ a, x ≠ .ok a) (hy : ∀ b, y ≠ .ok b) : Except.Corresponds φ x y := by
  cases x with
  | ok a => exact absurd rfl (hx a)
  | error e =>
    cases y with
    | ok b => exact absurd rfl (hy b)
    | error e' => exact .error e e'

/-- Chains whose links correspond do. -/
theorem bind {f : α → Except ε α'} {g : β → Except ε' β'} (h : Except.Corresponds φ x y)
    (hfg : ∀ a, x = .ok a → Except.Corresponds ψ (f a) (g (φ a))) :
    Except.Corresponds ψ (x >>= f) (y >>= g) := by
  cases h with
  | ok a => exact hfg a rfl
  | error e e' => exact .error e e'

/-- Mapped computations correspond if the computations and the mapped results do. -/
theorem map {f : α → α'} {g : β → β'} (h : Except.Corresponds φ x y)
    (hfg : ∀ a, g (φ a) = ψ (f a)) : Except.Corresponds ψ (x.map f) (y.map g) := by
  cases h with
  | ok a =>
    have hok : Except.Corresponds ψ (.ok (f a) : Except ε α') (.ok (ψ (f a)) : Except ε' β') :=
      .ok (f a)
    rw [← hfg a] at hok
    exact hok
  | error e e' => exact .error e e'

/-- Computations still correspond when their errors are mapped. -/
theorem mapError (h : Except.Corresponds φ x y) (f : ε → ε₁) (g : ε' → ε₁') :
    Except.Corresponds φ (x.mapError f) (y.mapError g) := by
  cases h with
  | ok a => exact .ok a
  | error e e' => exact .error (f e) (g e')

/-- The property `P` is kept along the first chain and may be used link by link. -/
theorem foldlM {P : α → Prop} {f : α → γ → Except ε α} {g : β → γ → Except ε' β} {items : List γ}
    {a : α} (ha : P a) (hP : ∀ a c a', P a → f a c = .ok a' → P a')
    (hfg : ∀ a c, P a → c ∈ items → Except.Corresponds φ (f a c) (g (φ a) c)) :
    Except.Corresponds φ (items.foldlM f a) (items.foldlM g (φ a)) := by
  induction items generalizing a with
  | nil => exact .ok a
  | cons c items ih =>
    rw [List.foldlM_cons, List.foldlM_cons]
    refine (hfg a c ha List.mem_cons_self).bind fun a' ha' => ?_
    exact ih (hP a c a' ha ha') fun b c' hb hc' => hfg b c' hb (List.mem_cons_of_mem c hc')

end Except.Corresponds

/-! ## Computations that agree -/

/-- Both computations fail, or both succeed with results that `R` relates. -/
inductive Except.Agree {α : Type w} {β : Type w} (R : α → β → Prop) :
    Except ε α → Except ε' β → Prop
  | ok {a : α} {b : β} (related : R a b) : Except.Agree R (.ok a) (.ok b)
  | error (e : ε) (e' : ε') : Except.Agree R (.error e) (.error e')

namespace Except.Agree

variable {α' β' : Type w} {ε₁ : Type u} {ε₁' : Type v} {R : α → β → Prop} {S : α' → β' → Prop}
  {x : Except ε α} {y : Except ε' β}

/-- Chains whose links agree do. -/
theorem bind {f : α → Except ε α'} {g : β → Except ε' β'} (h : Except.Agree R x y)
    (hfg : ∀ a b, R a b → Except.Agree S (f a) (g b)) :
    Except.Agree S (x >>= f) (y >>= g) := by
  cases h with
  | ok related => exact hfg _ _ related
  | error e e' => exact .error e e'

/-- Mapped computations agree if the computations and the mapped results do. -/
theorem map {f : α → α'} {g : β → β'} (h : Except.Agree R x y)
    (hfg : ∀ a b, R a b → S (f a) (g b)) : Except.Agree S (x.map f) (y.map g) := by
  cases h with
  | ok related => exact .ok (hfg _ _ related)
  | error e e' => exact .error e e'

/-- Computations still agree when their errors are mapped. -/
theorem mapError (h : Except.Agree R x y) (f : ε → ε₁) (g : ε' → ε₁') :
    Except.Agree R (x.mapError f) (y.mapError g) := by
  cases h with
  | ok related => exact .ok related
  | error e e' => exact .error (f e) (g e')

/-- A computation agrees with itself if its results are related to themselves. -/
theorem refl {R : α → α → Prop} (hR : ∀ a, R a a) (x : Except ε α) : Except.Agree R x x := by
  cases x with
  | ok a => exact .ok (hR a)
  | error e => exact .error e e

end Except.Agree

end LayeredConfig
