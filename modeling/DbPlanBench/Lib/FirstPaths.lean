import DbPlanBench.Lib.Postorder

/-!
# Depth-first walks along edges

A depth-first walk that follows edges, and finishes a node under the edge by which it was
met first. Which edge that is can be told without the marks that the walk leaves: it is the
last one of the first path to the node, among the paths that pass through no node twice, in
the order in which a search without marks tries them.

* `map_postorderBy` — up to the edges, the walk is the one over nodes.
* `firstEdge_of_mem_postorderBy` — the edge under which a node is finished.
* `postorderBy_fuel` — as many units of fuel as there are nodes are enough.

What the walk has met leads to nothing that it has not. So the paths to an unmet node are the
same whether or not the search has to avoid what is met (`pathsTo_of_closed`), and the next
edge can be looked at as if it were the first (`Walked.follow`).
-/

namespace Postorder

variable {α β : Type} [DecidableEq α] {key : β → α} {next : α → List β} {U : Finset α}

/-- Nodes met, and the edges under which nodes are finished. -/
abbrev EdgeState (α β : Type) := List α × List β

/-- Follow an edge: skip it if its node was met, else meet the node, follow its edges and finish
it. -/
def visitBy (key : β → α) (next : α → List β) : ℕ → EdgeState α β → β → EdgeState α β
  | 0, s, _ => s
  | fuel + 1, s, b =>
    if key b ∈ s.1 then s
    else
      let s' := (next (key b)).foldl (visitBy key next fuel) (key b :: s.1, s.2)
      (s'.1, s'.2 ++ [b])

/-- The edges under which the nodes are finished when these edges are followed one after the
other. -/
def postorderBy (key : β → α) (next : α → List β) (fuel : ℕ) (starts : List β) : List β :=
  (starts.foldl (visitBy key next fuel) ([], [])).2

/-- The paths that begin with one of `bs` and pass through no node twice and through none of
`met`, as lists of edges: a path comes before those that prolong it, and before those that branch
off to a later edge. -/
def simplePaths (key : β → α) (next : α → List β) : ℕ → List α → List β → List (List β)
  | 0, _, _ => []
  | fuel + 1, met, bs => bs.flatMap fun b =>
    if key b ∈ met then []
    else [b] :: (simplePaths key next fuel (key b :: met) (next (key b))).map (b :: ·)

/-- The path ends in the node. -/
def EndsIn (key : β → α) (a : α) (p : List β) : Prop := (p.getLast?).map key = some a

instance (key : β → α) (a : α) : DecidablePred (EndsIn key a) :=
  fun _ => inferInstanceAs (Decidable (_ = _))

/-- The paths to a node. -/
def pathsTo (key : β → α) (next : α → List β) (fuel : ℕ) (met : List α) (bs : List β) (a : α) :
    List (List β) :=
  (simplePaths key next fuel met bs).filter (EndsIn key a)

/-! ## Up to the edges -/

/-- The nodes met and finished. -/
def nodesOf (key : β → α) (s : EdgeState α β) : State α := (s.1, s.2.map key)

theorem visitBy_of_mem {fuel : ℕ} {s : EdgeState α β} {b : β} (h : key b ∈ s.1) :
    visitBy key next fuel s b = s := by
  cases fuel with
  | zero => rfl
  | succ n => rw [visitBy, if_pos h]

theorem visitBy_of_not_mem {fuel : ℕ} {s : EdgeState α β} {b : β} (h : key b ∉ s.1) :
    visitBy key next (fuel + 1) s b =
      (((next (key b)).foldl (visitBy key next fuel) (key b :: s.1, s.2)).1,
        ((next (key b)).foldl (visitBy key next fuel) (key b :: s.1, s.2)).2 ++ [b]) := by
  rw [visitBy, if_neg h]

theorem nodesOf_foldl {fuel : ℕ}
    (hvisit : ∀ (s : EdgeState α β) (b : β), nodesOf key (visitBy key next fuel s b) =
      visit (fun a => (next a).map key) fuel (nodesOf key s) (key b)) :
    ∀ (bs : List β) (s : EdgeState α β), nodesOf key (bs.foldl (visitBy key next fuel) s) =
      (bs.map key).foldl (visit (fun a => (next a).map key) fuel) (nodesOf key s)
  | [], _ => rfl
  | b :: bs, s => by
    rw [List.foldl_cons, List.map_cons, List.foldl_cons, nodesOf_foldl hvisit bs, hvisit]

theorem nodesOf_visitBy : ∀ (fuel : ℕ) (s : EdgeState α β) (b : β),
    nodesOf key (visitBy key next fuel s b) =
      visit (fun a => (next a).map key) fuel (nodesOf key s) (key b)
  | 0, _, _ => rfl
  | fuel + 1, s, b => by
    by_cases hb : key b ∈ s.1
    · have hb' : key b ∈ (nodesOf key s).1 := hb
      rw [visitBy_of_mem hb, visit_of_mem hb']
    · have hb' : key b ∉ (nodesOf key s).1 := hb
      have hrest := nodesOf_foldl (nodesOf_visitBy fuel) (next (key b)) (key b :: s.1, s.2)
      rw [visitBy_of_not_mem hb, visit_of_not_mem hb']
      rw [nodesOf, Prod.ext_iff] at hrest
      refine Prod.ext hrest.1 ?_
      rw [nodesOf, List.map_append]
      exact congrArg (· ++ [key b]) hrest.2

/-- **Up to the edges, the walk is the one over nodes.** -/
theorem map_postorderBy (fuel : ℕ) (starts : List β) :
    (postorderBy key next fuel starts).map key =
      postorder (fun a => (next a).map key) fuel (starts.map key) :=
  congrArg Prod.snd (nodesOf_foldl (nodesOf_visitBy fuel) starts ([], []))

/-! ## The paths to a node -/

/-- A path has an edge, and passes through no node that is to be avoided. -/
theorem not_mem_of_mem_simplePaths : ∀ {fuel : ℕ} {met : List α} {bs p : List β},
    p ∈ simplePaths key next fuel met bs → p ≠ [] ∧ ∀ b ∈ p, key b ∉ met
  | 0, _, _, _, h => absurd h List.not_mem_nil
  | fuel + 1, met, bs, p, h => by
    obtain ⟨b, _, hp⟩ := List.mem_flatMap.mp h
    by_cases hb : key b ∈ met
    · rw [if_pos hb] at hp
      exact absurd hp List.not_mem_nil
    · rw [if_neg hb] at hp
      rcases List.mem_cons.mp hp with rfl | hp
      · exact ⟨List.cons_ne_nil _ _, fun c hc => List.mem_singleton.mp hc ▸ hb⟩
      · obtain ⟨q, hq, rfl⟩ := List.mem_map.mp hp
        refine ⟨List.cons_ne_nil _ _, fun c hc => ?_⟩
        rcases List.mem_cons.mp hc with rfl | hc
        · exact hb
        · exact fun hm =>
            (not_mem_of_mem_simplePaths hq).2 c hc (List.mem_cons_of_mem _ hm)

/-- The edges of a path are among those it may begin with, or lead on from a node. -/
theorem edge_of_mem_simplePaths : ∀ {fuel : ℕ} {met : List α} {bs p : List β},
    p ∈ simplePaths key next fuel met bs → ∀ b ∈ p, b ∈ bs ∨ ∃ a, b ∈ next a
  | 0, _, _, _, h => absurd h List.not_mem_nil
  | fuel + 1, met, bs, p, h => by
    obtain ⟨b, hbs, hp⟩ := List.mem_flatMap.mp h
    intro c hc
    by_cases hb : key b ∈ met
    · rw [if_pos hb] at hp
      exact absurd hp List.not_mem_nil
    · rw [if_neg hb] at hp
      rcases List.mem_cons.mp hp with rfl | hp
      · exact Or.inl (List.mem_singleton.mp hc ▸ hbs)
      · obtain ⟨q, hq, rfl⟩ := List.mem_map.mp hp
        rcases List.mem_cons.mp hc with rfl | hc
        · exact Or.inl hbs
        · exact Or.inr ((edge_of_mem_simplePaths hq c hc).elim (fun h => ⟨_, h⟩) id)

omit [DecidableEq α] in
theorem endsIn_singleton {a : α} {b : β} : EndsIn key a [b] ↔ key b = a := by
  simp [EndsIn]

omit [DecidableEq α] in
theorem endsIn_cons {a : α} {b : β} {p : List β} (hp : p ≠ []) :
    EndsIn key a (b :: p) ↔ EndsIn key a p := by
  rw [EndsIn, EndsIn, List.getLast?_cons_of_ne_nil hp]

/-- No path leads to a node that is to be avoided. -/
theorem pathsTo_of_mem {a : α} {met : List α} (ha : a ∈ met) (fuel : ℕ) (bs : List β) :
    pathsTo key next fuel met bs a = [] := by
  rw [pathsTo, List.filter_eq_nil_iff]
  intro p hp
  rw [decide_eq_true_eq]
  intro hend
  obtain ⟨b, hb, rfl⟩ := Option.map_eq_some_iff.mp hend
  exact (not_mem_of_mem_simplePaths hp).2 b (List.mem_of_getLast? hb) ha

@[simp] theorem pathsTo_zero (met : List α) (bs : List β) (a : α) :
    pathsTo key next 0 met bs a = [] := rfl

@[simp] theorem pathsTo_nil (fuel : ℕ) (met : List α) (a : α) :
    pathsTo key next fuel met [] a = [] := by
  cases fuel <;> rfl

/-- The paths to a node by an edge, and by those after it. -/
theorem pathsTo_cons (fuel : ℕ) (met : List α) (b : β) (bs : List β) (a : α) :
    pathsTo key next (fuel + 1) met (b :: bs) a =
      (if key b ∈ met then []
        else if key b = a then [[b]]
        else (pathsTo key next fuel (key b :: met) (next (key b)) a).map (b :: ·)) ++
      pathsTo key next (fuel + 1) met bs a := by
  rw [pathsTo, simplePaths, List.flatMap_cons, List.filter_append]
  refine congrArg₂ (· ++ ·) ?_ rfl
  by_cases hb : key b ∈ met
  · rw [if_pos hb, if_pos hb, List.filter_nil]
  · rw [if_neg hb, if_neg hb]
    -- prolonging a path does not change where it ends
    have htail : ((simplePaths key next fuel (key b :: met) (next (key b))).map (b :: ·)).filter
        (EndsIn key a) = (pathsTo key next fuel (key b :: met) (next (key b)) a).map (b :: ·) := by
      rw [pathsTo, List.filter_map]
      refine congrArg _ (List.filter_congr fun p hp => decide_eq_decide.mpr ?_)
      exact endsIn_cons (not_mem_of_mem_simplePaths hp).1
    by_cases ha : key b = a
    · have hend : decide (EndsIn key a [b]) = true := decide_eq_true (endsIn_singleton.mpr ha)
      have hnone : pathsTo key next fuel (key b :: met) (next (key b)) a = [] :=
        pathsTo_of_mem (ha ▸ List.mem_cons_self ..) _ _
      rw [if_pos ha, List.filter_cons, if_pos hend, htail, hnone, List.map_nil]
    · have hend : ¬ decide (EndsIn key a [b]) = true :=
        fun h => ha (endsIn_singleton.mp (of_decide_eq_true h))
      rw [if_neg ha, List.filter_cons, if_neg hend, htail]

/-- From inside a set of nodes that lead to one another, or to nodes to be avoided, there is no way
out. -/
theorem pathsTo_inside {met' : List α} {a : α} (ha : a ∉ met') :
    ∀ (fuel : ℕ) (bs : List β) (met : List α),
      (∀ x ∈ met', x ∉ met → ∀ c ∈ next x, key c ∈ met') → (∀ b ∈ bs, key b ∈ met') →
        pathsTo key next fuel met bs a = [] := by
  intro fuel
  induction fuel with
  | zero => intros; rfl
  | succ fuel ih =>
    intro bs met hclosed hbs
    induction bs with
    | nil => exact pathsTo_nil ..
    | cons b bs ihbs =>
      have hb := hbs b (List.mem_cons_self ..)
      rw [pathsTo_cons, ihbs fun c hc => hbs c (List.mem_cons_of_mem _ hc), List.append_nil]
      by_cases hm : key b ∈ met
      · rw [if_pos hm]
      · have hne : key b ≠ a := fun he => ha (he ▸ hb)
        rw [if_neg hm, if_neg hne, ih (next (key b)) (key b :: met)
          (fun x hx hxm => hclosed x hx fun h => hxm (List.mem_cons_of_mem _ h)) (hclosed _ hb hm),
          List.map_nil]

/-- **The paths to a node outside a set that cannot be left are the same with that set avoided.** -/
theorem pathsTo_of_closed {a : α} : ∀ (fuel : ℕ) (bs : List β) {met met' : List α},
    (∀ x ∈ met, x ∈ met') → (∀ x ∈ met', x ∉ met → ∀ c ∈ next x, key c ∈ met') → a ∉ met' →
      pathsTo key next fuel met bs a = pathsTo key next fuel met' bs a := by
  intro fuel
  induction fuel with
  | zero => intros; rfl
  | succ fuel ih =>
    intro bs met met' hsub hclosed ha
    induction bs with
    | nil => rw [pathsTo_nil, pathsTo_nil]
    | cons b bs ihbs =>
      rw [pathsTo_cons, pathsTo_cons, ihbs]
      refine congrArg (· ++ _) ?_
      by_cases hm' : key b ∈ met'
      · rw [if_pos hm']
        by_cases hm : key b ∈ met
        · rw [if_pos hm]
        · have hne : key b ≠ a := fun he => ha (he ▸ hm')
          rw [if_neg hm, if_neg hne, pathsTo_inside ha fuel _ _
            (fun x hx hxm => hclosed x hx fun h => hxm (List.mem_cons_of_mem _ h))
            (hclosed _ hm' hm), List.map_nil]
      · rw [if_neg hm', if_neg fun h => hm' (hsub _ h)]
        by_cases he : key b = a
        · rw [if_pos he, if_pos he]
        · rw [if_neg he, if_neg he]
          refine congrArg _ (ih _ ?_ ?_ ?_)
          · exact fun x hx => (List.mem_cons.mp hx).elim (fun h => h ▸ List.mem_cons_self ..)
              fun h => List.mem_cons_of_mem _ (hsub x h)
          · intro x hx hxm c hc
            rcases List.mem_cons.mp hx with rfl | hx
            · exact absurd (List.mem_cons_self ..) hxm
            · exact List.mem_cons_of_mem _
                (hclosed x hx (fun h => hxm (List.mem_cons_of_mem _ h)) c hc)
          · exact fun h => (List.mem_cons.mp h).elim (fun h => he h.symm) ha

/-! ## The edge by which a node is met -/

/-- The last edge of the first path to a node. -/
def firstEdge (key : β → α) (next : α → List β) (fuel : ℕ) (met : List α) (bs : List β) (a : α) :
    Option β :=
  ((simplePaths key next fuel met bs).find? (EndsIn key a)).bind List.getLast?

theorem firstEdge_eq (fuel : ℕ) (met : List α) (bs : List β) (a : α) :
    firstEdge key next fuel met bs a =
      (pathsTo key next fuel met bs a).head?.bind List.getLast? := by
  rw [firstEdge, pathsTo, List.head?_filter]

theorem edge_of_firstEdge {fuel : ℕ} {met : List α} {bs : List β} {a : α} {b : β}
    (h : firstEdge key next fuel met bs a = some b) : b ∈ bs ∨ ∃ a, b ∈ next a := by
  obtain ⟨p, hp, hb⟩ := Option.bind_eq_some_iff.mp h
  exact edge_of_mem_simplePaths (List.mem_of_find?_eq_some hp) b (List.mem_of_getLast? hb)

/-- Following an edge to a node that was not met. -/
theorem firstEdge_self {fuel : ℕ} {met : List α} {b : β} (hb : key b ∉ met) (bs : List β) :
    firstEdge key next (fuel + 1) met (b :: bs) (key b) = some b := by
  rw [firstEdge_eq, pathsTo_cons, if_neg hb, if_pos rfl]
  rfl

/-- Meeting a node after the one that an edge leads to. -/
theorem firstEdge_below {fuel : ℕ} {met : List α} {b c : β} {bs : List β} {a : α} (hb : key b ∉ met)
    (ha : key b ≠ a) (h : firstEdge key next fuel (key b :: met) (next (key b)) a = some c) :
    firstEdge key next (fuel + 1) met (b :: bs) a = some c := by
  rw [firstEdge_eq] at h
  obtain ⟨p, hp, hc⟩ := Option.bind_eq_some_iff.mp h
  obtain ⟨ps, hps⟩ := List.head?_eq_some_iff.mp hp
  have hne : p ≠ [] := by
    rintro rfl
    exact absurd hc (by simp)
  rw [firstEdge_eq, pathsTo_cons, if_neg hb, if_neg ha, hps, List.map_cons, List.cons_append,
    List.head?_cons, Option.bind_some, List.getLast?_cons_of_ne_nil hne, hc]

/-- Meeting a node by a later edge, when what the first one leads to is met. -/
theorem firstEdge_beside {fuel : ℕ} {met met' : List α} {b : β} {bs : List β} {a : α}
    (hsub : ∀ x ∈ met, x ∈ met') (hclosed : ∀ x ∈ met', x ∉ met → ∀ c ∈ next x, key c ∈ met')
    (hb : key b ∈ met') (ha : a ∉ met') :
    firstEdge key next (fuel + 1) met (b :: bs) a = firstEdge key next (fuel + 1) met' bs a := by
  rw [firstEdge_eq, firstEdge_eq, pathsTo_of_closed _ _ hsub hclosed ha, pathsTo_cons, if_pos hb,
    List.nil_append]

/-! ## The walk -/

/-- What a walk along `bs` does, with `new` the edges it finishes nodes under: the nodes it meets are
those at their ends, and lead to nodes that are met; and each was met by the last edge of the first
path to it. -/
structure Walked (key : β → α) (next : α → List β) (fuel : ℕ) (s : EdgeState α β) (bs : List β)
    (s' : EdgeState α β) (new : List β) : Prop where
  finished : s'.2 = s.2 ++ new
  met : ∀ a, a ∈ s'.1 ↔ a ∈ s.1 ∨ a ∈ new.map key
  starts : ∀ b ∈ bs, key b ∈ s'.1
  closed : ∀ b ∈ new, ∀ c ∈ next (key b), key c ∈ s'.1
  fresh : ∀ b ∈ new, key b ∉ s.1
  first : ∀ b ∈ new, firstEdge key next fuel s.1 bs (key b) = some b

theorem walked_nil (fuel : ℕ) (s : EdgeState α β) : Walked key next fuel s [] s [] where
  finished := (List.append_nil _).symm
  met := fun _ => by simp
  starts := fun _ h => absurd h List.not_mem_nil
  closed := fun _ h => absurd h List.not_mem_nil
  fresh := fun _ h => absurd h List.not_mem_nil
  first := fun _ h => absurd h List.not_mem_nil

/-- An edge to a node that was met adds nothing. -/
theorem Walked.skip {fuel : ℕ} {s s' : EdgeState α β} {b : β} {bs new : List β} (hb : key b ∈ s.1)
    (h : Walked key next (fuel + 1) s bs s' new) : Walked key next (fuel + 1) s (b :: bs) s' new where
  finished := h.finished
  met := h.met
  starts := fun c hc => by
    rcases List.mem_cons.mp hc with rfl | hc
    · exact (h.met _).mpr (Or.inl hb)
    · exact h.starts c hc
  closed := h.closed
  fresh := h.fresh
  first := fun c hc => by
    rw [firstEdge_eq, pathsTo_cons, if_pos hb, List.nil_append, ← firstEdge_eq]
    exact h.first c hc

/-- An edge to a new node: first what the node leads to, then the node, then the other edges. -/
theorem Walked.follow {fuel : ℕ} {s s₁ s' : EdgeState α β} {b : β} {bs new₁ new : List β}
    (hb : key b ∉ s.1)
    (h₁ : Walked key next fuel (key b :: s.1, s.2) (next (key b)) s₁ new₁)
    (h : Walked key next (fuel + 1) (s₁.1, s₁.2 ++ [b]) bs s' new) :
    Walked key next (fuel + 1) s (b :: bs) s' (new₁ ++ b :: new) := by
  have hmet₁ : ∀ a, a ∈ s₁.1 ↔ a = key b ∨ a ∈ s.1 ∨ a ∈ new₁.map key := fun a => by
    rw [h₁.met, List.mem_cons, or_assoc]
  have hsub : ∀ a ∈ s.1, a ∈ s₁.1 := fun a ha => (hmet₁ a).mpr (Or.inr (Or.inl ha))
  have hgrown : ∀ a ∈ s₁.1, a ∈ s'.1 := fun a ha => (h.met a).mpr (Or.inl ha)
  have hself : key b ∈ s₁.1 := (hmet₁ _).mpr (Or.inl rfl)
  have hclosed : ∀ a ∈ s₁.1, a ∉ s.1 → ∀ c ∈ next a, key c ∈ s₁.1 := by
    intro a ha has c hc
    rcases (hmet₁ a).mp ha with rfl | ha | ha
    · exact h₁.starts c hc
    · exact absurd ha has
    · obtain ⟨d, hd, rfl⟩ := List.mem_map.mp ha
      exact h₁.closed d hd c hc
  refine ⟨?_, fun a => ?_, ?_, ?_, ?_, ?_⟩
  · rw [h.finished, h₁.finished]
    simp only [List.append_assoc, List.singleton_append]
  · rw [h.met]
    dsimp only
    rw [hmet₁, List.map_append, List.map_cons, List.mem_append, List.mem_cons]
    tauto
  · intro c hc
    rcases List.mem_cons.mp hc with rfl | hc
    · exact hgrown _ hself
    · exact h.starts c hc
  · intro c hc
    rcases List.mem_append.mp hc with hc | hc
    · exact fun d hd => hgrown _ (h₁.closed c hc d hd)
    rcases List.mem_cons.mp hc with rfl | hc
    · exact fun d hd => hgrown _ (h₁.starts d hd)
    · exact h.closed c hc
  · intro c hc
    rcases List.mem_append.mp hc with hc | hc
    · exact fun hm => h₁.fresh c hc (List.mem_cons_of_mem _ hm)
    rcases List.mem_cons.mp hc with rfl | hc
    · exact hb
    · exact fun hm => h.fresh c hc (hsub _ hm)
  · intro c hc
    rcases List.mem_append.mp hc with hc | hc
    · apply firstEdge_below hb
      · exact fun he => h₁.fresh c hc (he ▸ List.mem_cons_self ..)
      · exact h₁.first c hc
    rcases List.mem_cons.mp hc with rfl | hc
    · exact firstEdge_self hb bs
    · rw [firstEdge_beside hsub hclosed hself (h.fresh c hc)]
      exact h.first c hc

theorem unmet_mono {s s' : State α} (h : ∀ a ∈ s.1, a ∈ s'.1) : unmet U s' ⊆ unmet U s := by
  intro x hx
  rw [unmet, Finset.mem_filter] at hx ⊢
  exact ⟨hx.1, fun hs => hx.2 (h x hs)⟩

/-- **Each node is met by the last edge of the first path to it**, if the fuel is enough for every
node not met yet. -/
theorem exists_walked (hU : ∀ a ∈ U, ∀ b ∈ next a, key b ∈ U) : ∀ (fuel : ℕ) (bs : List β)
    (s : EdgeState α β), (∀ b ∈ bs, key b ∈ U) → (unmet U (nodesOf key s)).card ≤ fuel →
      ∃ new, Walked key next fuel s bs (bs.foldl (visitBy key next fuel) s) new := by
  intro fuel
  induction fuel with
  | zero =>
    intro bs s hbs hcard
    -- every node is met, and no fuel is needed
    have hmet : ∀ b ∈ bs, key b ∈ s.1 := by
      intro b hb
      by_contra hs
      have hmem : key b ∈ unmet U (nodesOf key s) := Finset.mem_filter.mpr ⟨hbs b hb, hs⟩
      exact absurd (Finset.card_pos.mpr ⟨_, hmem⟩) (by omega)
    have hstay : ∀ bs : List β, bs.foldl (visitBy key next 0) s = s := fun bs => by
      induction bs with
      | nil => rfl
      | cons b bs ih => exact ih
    rw [hstay]
    exact ⟨[], { walked_nil 0 s with starts := hmet }⟩
  | succ fuel ih =>
    intro bs
    induction bs with
    | nil => exact fun s _ _ => ⟨[], walked_nil (fuel + 1) s⟩
    | cons b bs ihbs =>
      intro s hbs hcard
      have hbU := hbs b (List.mem_cons_self ..)
      have hrest := fun c hc => hbs c (List.mem_cons_of_mem _ hc)
      rw [List.foldl_cons]
      by_cases hb : key b ∈ s.1
      · rw [visitBy_of_mem hb]
        obtain ⟨new, hnew⟩ := ihbs s hrest hcard
        exact ⟨new, hnew.skip hb⟩
      · have hlt : (unmet U (nodesOf key (key b :: s.1, s.2))).card <
            (unmet U (nodesOf key s)).card := unmet_meet (s := nodesOf key s) hbU hb
        obtain ⟨new₁, h₁⟩ := ih (next (key b)) (key b :: s.1, s.2) (hU _ hbU) (by omega)
        rw [visitBy_of_not_mem hb]
        obtain ⟨new, h⟩ := ihbs (((next (key b)).foldl (visitBy key next fuel) (key b :: s.1, s.2)).1,
          ((next (key b)).foldl (visitBy key next fuel) (key b :: s.1, s.2)).2 ++ [b]) hrest <| by
            refine (Finset.card_le_card (unmet_mono fun a ha => ?_)).trans hcard
            exact (h₁.met a).mpr (Or.inl (List.mem_cons_of_mem _ ha))
        exact ⟨_, h₁.follow hb h⟩

theorem foldl_visitBy_fuel (hU : ∀ a ∈ U, ∀ b ∈ next a, key b ∈ U) {fuel : ℕ}
    (hvisit : ∀ (s : EdgeState α β) (b : β), key b ∈ U → (unmet U (nodesOf key s)).card ≤ fuel →
      visitBy key next (fuel + 1) s b = visitBy key next fuel s b) : ∀ {bs : List β}
        {s : EdgeState α β}, (∀ b ∈ bs, key b ∈ U) → (unmet U (nodesOf key s)).card ≤ fuel →
          bs.foldl (visitBy key next (fuel + 1)) s = bs.foldl (visitBy key next fuel) s := by
  intro bs
  induction bs with
  | nil => intros; rfl
  | cons b bs ih =>
    intro s hbs hcard
    have hb := hbs b (List.mem_cons_self ..)
    rw [List.foldl_cons, List.foldl_cons, hvisit s b hb hcard]
    apply ih
    · exact fun c hc => hbs c (List.mem_cons_of_mem _ hc)
    · obtain ⟨new, h⟩ := exists_walked hU fuel [b] s (List.forall_mem_singleton.mpr hb) hcard
      exact (Finset.card_le_card (unmet_mono fun a ha => (h.met a).mpr (Or.inl ha))).trans hcard

theorem visitBy_fuel (hU : ∀ a ∈ U, ∀ b ∈ next a, key b ∈ U) : ∀ (fuel : ℕ) (s : EdgeState α β)
    (b : β), key b ∈ U → (unmet U (nodesOf key s)).card ≤ fuel →
      visitBy key next (fuel + 1) s b = visitBy key next fuel s b := by
  intro fuel
  induction fuel with
  | zero =>
    intro s b hb hcard
    have hs : key b ∈ s.1 := by
      by_contra hs
      have hmem : key b ∈ unmet U (nodesOf key s) := Finset.mem_filter.mpr ⟨hb, hs⟩
      exact absurd (Finset.card_pos.mpr ⟨_, hmem⟩) (by omega)
    rw [visitBy_of_mem hs, visitBy_of_mem hs]
  | succ fuel ih =>
    intro s b hb hcard
    by_cases hs : key b ∈ s.1
    · rw [visitBy_of_mem hs, visitBy_of_mem hs]
    · have hlt : (unmet U (nodesOf key (key b :: s.1, s.2))).card <
          (unmet U (nodesOf key s)).card := unmet_meet (s := nodesOf key s) hb hs
      rw [visitBy_of_not_mem hs, visitBy_of_not_mem hs, foldl_visitBy_fuel hU ih (hU _ hb) (by omega)]

/-- With fuel for every node of a closed set a walk in it is not cut short. -/
theorem postorderBy_fuel (hU : ∀ a ∈ U, ∀ b ∈ next a, key b ∈ U) {fuel : ℕ} {starts : List β}
    (hs : ∀ b ∈ starts, key b ∈ U) (hfuel : U.card ≤ fuel) (more : ℕ) :
    postorderBy key next (fuel + more) starts = postorderBy key next fuel starts := by
  induction more with
  | zero => rfl
  | succ more ih =>
    have hcard : (unmet U (nodesOf key ([], []))).card ≤ fuel + more :=
      (Finset.card_filter_le U _).trans (by omega)
    rw [← ih, postorderBy, postorderBy]
    exact congrArg Prod.snd (foldl_visitBy_fuel hU (visitBy_fuel hU (fuel + more)) hs hcard)

/-- **The edge under which a node is finished.** -/
theorem firstEdge_of_mem_postorderBy (hU : ∀ a ∈ U, ∀ b ∈ next a, key b ∈ U) {fuel : ℕ}
    (hfuel : U.card ≤ fuel) {starts : List β} (hs : ∀ b ∈ starts, key b ∈ U) {b : β}
    (hb : b ∈ postorderBy key next fuel starts) :
    firstEdge key next fuel [] starts (key b) = some b := by
  have hcard : (unmet U (nodesOf key ([], []))).card ≤ fuel :=
    (Finset.card_filter_le U _).trans hfuel
  obtain ⟨new, h⟩ := exists_walked hU fuel starts ([], []) hs hcard
  rw [postorderBy, h.finished, List.nil_append] at hb
  exact h.first b hb

end Postorder
