import Mathlib.Data.List.Infix
import Mathlib.Data.List.Flatten

/-!
# Keeping what is new

From a list of members that each need some resources, the first ones are kept: a member is
kept when none of its resources is taken by a member that is kept before it.

* `keep_sublist`, `keep_pairwise` — the kept members are in order, and share no resource.
* `mem_taken_iff` — a resource is taken when some member that needs it is kept.
-/

namespace FirstCome

variable {α β : Type} [DecidableEq β] {needs : α → List β}

/-- The members that are kept when some resources are taken already. -/
def keep (needs : α → List β) : List β → List α → List α
  | _, [] => []
  | taken, a :: as =>
    if (needs a).any (· ∈ taken) then keep needs taken as
    else a :: keep needs (taken ++ needs a) as

/-- The resources that some members take. -/
def taken (needs : α → List β) (as : List α) : List β := (keep needs [] as).flatMap needs

theorem keep_sublist : ∀ (as : List α) (bs : List β), (keep needs bs as).Sublist as
  | [], _ => .slnil
  | a :: as, bs => by
    rw [keep]
    split
    next => exact (keep_sublist as bs).cons a
    next => exact (keep_sublist as _).cons_cons a

/-- What is taken before is not needed by a member that is kept. -/
theorem not_mem_of_mem_keep : ∀ {as : List α} {bs : List β} {a : α}, a ∈ keep needs bs as →
    ∀ b ∈ needs a, b ∉ bs
  | [], _, _, h, _, _ => absurd h List.not_mem_nil
  | c :: as, bs, a, h, b, hb => by
    rw [keep] at h
    split at h
    next => exact not_mem_of_mem_keep h b hb
    next hfree =>
      rcases List.mem_cons.mp h with rfl | h
      · exact fun hbs => hfree (List.any_eq_true.mpr ⟨b, hb, decide_eq_true hbs⟩)
      · exact fun hbs => not_mem_of_mem_keep h b hb (List.mem_append_left _ hbs)

/-- **Two members that are kept share nothing.** -/
theorem keep_pairwise : ∀ (as : List α) (bs : List β),
    (keep needs bs as).Pairwise fun a c => ∀ b ∈ needs a, b ∉ needs c
  | [], _ => .nil
  | a :: as, bs => by
    rw [keep]
    split
    next => exact keep_pairwise as bs
    next =>
      refine .cons (fun c hc b hb hbc => ?_) (keep_pairwise as _)
      exact not_mem_of_mem_keep hc b hbc (List.mem_append_right _ hb)

/-- One more member is kept when nothing it needs is taken. -/
theorem keep_append : ∀ (as : List α) (bs : List β) (a : α), keep needs bs (as ++ [a]) =
    keep needs bs as ++
      if (needs a).any (· ∈ bs ++ (keep needs bs as).flatMap needs) then [] else [a]
  | [], bs, a => by
    rw [List.nil_append, keep, keep, keep, keep, List.flatMap_nil, List.append_nil, List.nil_append]
  | c :: as, bs, a => by
    rw [List.cons_append, keep, keep]
    split
    next => exact keep_append as bs a
    next =>
      rw [keep_append as _ a, List.flatMap_cons, List.append_assoc]
      rfl

theorem keep_concat (as : List α) (a : α) : keep needs [] (as ++ [a]) =
    keep needs [] as ++ if (needs a).any (· ∈ taken needs as) then [] else [a] := by
  rw [keep_append, List.nil_append]
  rfl

/-- **A resource is taken when a member that needs it needs nothing that is taken before it.** -/
theorem mem_taken_iff (as : List α) (b : β) : b ∈ taken needs as ↔
    ∃ before a, before ++ [a] <+: as ∧ b ∈ needs a ∧ ∀ c ∈ needs a, c ∉ taken needs before := by
  induction as using List.reverseRecOn with
  | nil =>
    refine iff_of_false List.not_mem_nil fun h => ?_
    obtain ⟨before, a, hpre, _⟩ := h
    exact absurd (List.prefix_nil.mp hpre) (by simp)
  | append_singleton as x ih =>
    have hstep : b ∈ taken needs (as ++ [x]) ↔ b ∈ taken needs as ∨
        (b ∈ needs x ∧ ∀ c ∈ needs x, c ∉ taken needs as) := by
      rw [taken, keep_concat, List.flatMap_append, List.mem_append]
      refine or_congr Iff.rfl ?_
      by_cases hany : (needs x).any (· ∈ taken needs as) = true
      · rw [if_pos hany]
        obtain ⟨c, hc, hmem⟩ := List.any_eq_true.mp hany
        exact iff_of_false List.not_mem_nil fun h => h.2 c hc (of_decide_eq_true hmem)
      · rw [if_neg hany, List.flatMap_singleton]
        refine (and_iff_left fun c hc hmem => hany ?_).symm
        exact List.any_eq_true.mpr ⟨c, hc, decide_eq_true hmem⟩
    rw [hstep, ih]
    constructor
    · rintro (⟨before, a, hpre, hrest⟩ | hx)
      · exact ⟨before, a, hpre.trans (List.prefix_append _ _), hrest⟩
      · exact ⟨as, x, List.prefix_rfl, hx⟩
    · rintro ⟨before, a, hpre, hrest⟩
      rcases List.prefix_concat_iff.mp hpre with heq | hpre
      · obtain ⟨rfl, hax⟩ := List.append_inj' heq rfl
        obtain rfl : a = x := List.singleton_inj.mp hax
        exact Or.inr hrest
      · exact Or.inl ⟨before, a, hpre, hrest⟩

end FirstCome
