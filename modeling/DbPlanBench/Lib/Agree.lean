import DbPlanBench.Lib.Except

/-!
# Two runs that agree

`Agree r x y` says of two computations that may fail that both fail or both return, and
then what they return is related by `r`. Nothing is said about the errors. The rules follow
the computations: two binds agree if their halves do, two loops if their rounds do, so a
program that is run on related inputs is gone through once for both runs.
-/

namespace Except

variable {ε ε' α α' β β' : Type}

/-- Both fail, or both return related values. -/
def Agree (r : α → α' → Prop) : Except ε α → Except ε' α' → Prop
  | .ok a, .ok b => r a b
  | .error _, .error _ => True
  | _, _ => False

variable {r : α → α' → Prop} {s : β → β' → Prop} {x : Except ε α} {y : Except ε' α'}

@[simp] theorem agree_ok {a : α} {b : α'} :
    Agree r (.ok a : Except ε α) (.ok b : Except ε' α') ↔ r a b := Iff.rfl

@[simp] theorem agree_error (e : ε) (e' : ε') : Agree r (.error e) (.error e') := trivial

/-- What the first run returns, the second one returns a relative of. -/
theorem Agree.left (h : Agree r x y) {a : α} (hx : x = .ok a) : ∃ b, y = .ok b ∧ r a b := by
  subst hx
  cases y with
  | ok b => exact ⟨b, rfl, h⟩
  | error e => exact h.elim

/-- Runs of which each returns only if the other does. -/
theorem agree_of_forall (hx : ∀ a, x = .ok a → ∃ b, y = .ok b ∧ r a b)
    (hy : ∀ b, y = .ok b → ∃ a, x = .ok a) : Agree r x y := by
  cases x with
  | ok a =>
    obtain ⟨b, rfl, hab⟩ := hx a rfl
    exact hab
  | error e =>
    cases y with
    | ok b =>
      obtain ⟨a, ha⟩ := hy b rfl
      exact absurd ha (by simp)
    | error e' => exact trivial

theorem Agree.imp {r' : α → α' → Prop} (h : Agree r x y)
    (hr : ∀ a b, x = .ok a → y = .ok b → r a b → r' a b) : Agree r' x y := by
  cases x with
  | ok a =>
    cases y with
    | ok b => exact hr a b rfl rfl h
    | error e => exact h
  | error e =>
    cases y with
    | ok b => exact h
    | error e' => exact trivial

theorem agree_of_eq {x y : Except ε α} (h : x = y) : Agree Eq x y := by
  subst h
  cases x with
  | ok a => rfl
  | error e => exact trivial

/-- Two binds. -/
theorem Agree.bind {f : α → Except ε β} {g : α' → Except ε' β'} (h : Agree r x y)
    (hfg : ∀ a b, x = .ok a → y = .ok b → r a b → Agree s (f a) (g b)) :
    Agree s (x >>= f) (y >>= g) := by
  cases x with
  | ok a =>
    cases y with
    | ok b => exact hfg a b rfl rfl h
    | error e => exact h.elim
  | error e =>
    cases y with
    | ok b => exact h.elim
    | error e' => exact trivial

/-- Two loops over related lists. -/
theorem Agree.mapM {f : α → Except ε β} {g : α' → Except ε' β'} {l : List α} {l' : List α'}
    (h : List.Forall₂ r l l') (hfg : ∀ a b, r a b → Agree s (f a) (g b)) :
    Agree (List.Forall₂ s) (l.mapM f) (l'.mapM g) := by
  induction h with
  | nil => exact List.Forall₂.nil
  | cons hab _ ih =>
    rw [List.mapM_cons, List.mapM_cons]
    refine (hfg _ _ hab).bind fun c d _ _ hcd => ih.bind fun cs ds _ _ hcds => ?_
    exact List.Forall₂.cons hcd hcds

end Except
