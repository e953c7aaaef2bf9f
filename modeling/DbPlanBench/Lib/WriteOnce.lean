import Mathlib.Logic.Function.Basic

/-!
# Write-once stores and locks

Two tables that concurrent processes share. In a write-once store a key without a
value can get one of its values and keeps it from then on, so what a store holds after
any sequence of writes was there before or is a value of its key. In a lock table every
lock has at most one holder; `Agree` relates it to what the processes think they hold.

* `Writes.persists` — a stored value stays.
* `Agree.exclusive` — a lock is held by one process.
-/

namespace WriteOnce

variable {κ β : Type*} [DecidableEq κ]

/-- What some writes can do to a store; `value` says what may be written under a key. -/
inductive Writes (value : κ → β → Prop) : (κ → Option β) → (κ → Option β) → Prop
  | refl (store : κ → Option β) : Writes value store store
  | write {store store' : κ → Option β} {k : κ} {v : β} (before : Writes value store store')
      (absent : store' k = none) (allowed : value k v) :
      Writes value store (Function.update store' k (some v))

variable {value : κ → β → Prop} {store store' : κ → Option β}

theorem Writes.persists (h : Writes value store store') {k : κ} {v : β} (hv : store k = some v) :
    store' k = some v := by
  induction h with
  | refl => exact hv
  | @write store' key w _ absent _ ih =>
    have hne : k ≠ key := by
      intro heq
      rw [← heq, ih] at absent
      cases absent
    rw [Function.update_of_ne hne]
    exact ih

/-- What a store holds was there before, or is a value of its key that has been written since. -/
theorem Writes.origin (h : Writes value store store') (k : κ) :
    store' k = store k ∨ store k = none ∧ ∃ v, value k v ∧ store' k = some v := by
  induction h with
  | refl => exact .inl rfl
  | @write store' key w before absent allowed ih =>
    by_cases hk : k = key
    · subst hk
      refine .inr ⟨?_, w, allowed, Function.update_self ..⟩
      cases hold : store k with
      | none => rfl
      | some v =>
        rw [before.persists hold] at absent
        cases absent
    · rw [Function.update_of_ne hk]
      exact ih

end WriteOnce

namespace LockTable

variable {κ P : Type*}

/-- The table after a process has died: what it held is free. -/
def drop [DecidableEq P] (holder : κ → Option P) (p : P) : κ → Option P := fun k =>
  if holder k = some p then none else holder k

/-- The holders of a table are the processes that are inside. -/
def Agree (holder : κ → Option P) (inside : P → Option κ) : Prop :=
  ∀ p k, inside p = some k ↔ holder k = some p

variable {holder : κ → Option P} {inside : P → Option κ} {p q : P} {k : κ}

theorem Agree.exclusive (h : Agree holder inside) (hp : inside p = some k)
    (hq : inside q = some k) : p = q := by
  have hp' := (h p k).mp hp
  rw [(h q k).mp hq] at hp'
  exact (Option.some.inj hp').symm

variable [DecidableEq P]

theorem Agree.drop (h : Agree holder inside) (p : P) :
    Agree (drop holder p) (Function.update inside p none) := by
  intro q l
  have hql := h q l
  unfold LockTable.drop
  by_cases hq : q = p
  · subst hq
    rw [Function.update_self]
    constructor
    · intro heq
      cases heq
    · intro heq
      split at heq
      · cases heq
      · next hne => exact absurd heq hne
  · rw [Function.update_of_ne hq, hql]
    split
    · next hp =>
      rw [hp]
      constructor
      · intro heq
        exact absurd (Option.some.inj heq).symm hq
      · intro heq
        cases heq
    · exact Iff.rfl

variable [DecidableEq κ]

theorem Agree.acquire (h : Agree holder inside) (hfree : holder k = none)
    (hout : inside p = none) :
    Agree (Function.update holder k (some p)) (Function.update inside p (some k)) := by
  intro q l
  have hql := h q l
  by_cases hq : q = p
  · subst hq
    by_cases hl : l = k
    · subst hl
      simp
    · rw [Function.update_self, Function.update_of_ne hl, ← hql, hout]
      constructor
      · intro heq
        exact absurd (Option.some.inj heq).symm hl
      · intro heq
        cases heq
  · rw [Function.update_of_ne hq]
    by_cases hl : l = k
    · subst hl
      rw [Function.update_self, hql, hfree]
      constructor
      · intro heq
        cases heq
      · intro heq
        exact absurd (Option.some.inj heq).symm hq
    · rw [Function.update_of_ne hl]
      exact hql

/-- Giving up the lock one is inside is the same as giving up all one has. -/
theorem Agree.drop_eq (h : Agree holder inside) (hin : inside p = some k) :
    LockTable.drop holder p = Function.update holder k none := by
  funext l
  unfold LockTable.drop
  by_cases hl : l = k
  · subst hl
    rw [Function.update_self, if_pos ((h p l).mp hin)]
  · rw [Function.update_of_ne hl]
    refine if_neg fun hp => ?_
    have hl' := (h p l).mpr hp
    rw [hin] at hl'
    exact hl (Option.some.inj hl').symm

end LockTable
