import DbPlanBench.LocalData.Safety

/-!
# No call is stuck

A process that waits for the lock of a data folder can always get it, and return the
folder, in whatever state the others are and whoever has died: the holder of the lock has
a way to the end of its call that needs nobody else (`waiting_returns`).

* `Alone` — what some actions of one process do.
* `locked_leaves`, `generating_leaves` — the way out of the lock.
-/

namespace DbPlanBench.LocalData

section

variable {P α : Type} [DecidableEq P] {src : Sources α} {dir : String} {locking : Bool}
  {s s' s'' : State P α} {p q : P}

@[simp]
theorem pc_setPc (x : Pc α) : (s.setPc p x).pc p = x := Function.update_self ..

theorem pc_setPc_of_ne (x : Pc α) (h : q ≠ p) : (s.setPc p x).pc q = s.pc q :=
  Function.update_of_ne h ..

/-- Some actions of one process lead from one state to another. -/
structure Alone (src : Sources α) (dir : String) (locking : Bool) (q : P) (s s' : State P α) :
    Prop where
  runs : ∃ actions : List (P × Action), run src dir locking s actions = some s'
  others : ∀ r, r ≠ q → s'.pc r = s.pc r

theorem Alone.refl (s : State P α) : Alone src dir locking q s s := ⟨⟨[], rfl⟩, fun _ _ => rfl⟩

theorem Alone.head (action : Action) (h : step src dir locking s q action = some s')
    (hothers : ∀ r, r ≠ q → s'.pc r = s.pc r) (hrest : Alone src dir locking q s' s'') :
    Alone src dir locking q s s'' := by
  obtain ⟨actions, hrun⟩ := hrest.runs
  refine ⟨⟨(q, action) :: actions, ?_⟩, fun r hr => (hrest.others r hr).trans (hothers r hr)⟩
  exact Option.bind_eq_some_iff.mpr ⟨s', h, hrun⟩

theorem Alone.one (action : Action) (h : step src dir locking s q action = some s')
    (hothers : ∀ r, r ≠ q → s'.pc r = s.pc r) : Alone src dir locking q s s' :=
  .head action h hothers (.refl s')

theorem run_append {as bs : List (P × Action)} (ha : run src dir locking s as = some s')
    (hb : run src dir locking s' bs = some s'') : run src dir locking s (as ++ bs) = some s'' := by
  rw [run, List.foldlM_append]
  exact Option.bind_eq_some_iff.mpr ⟨s', ha, hb⟩

theorem Alone.trans (h : Alone src dir locking q s s') (h' : Alone src dir locking q s' s'') :
    Alone src dir locking q s s'' := by
  obtain ⟨as, ha⟩ := h.runs
  obtain ⟨bs, hb⟩ := h'.runs
  exact ⟨⟨as ++ bs, run_append ha hb⟩, fun r hr => (h'.others r hr).trans (h.others r hr)⟩

/-! ## The way out of the lock -/

theorem leaving_ends {t : Target} {outcome : Except PyErr Unit}
    (hpc : s.pc q = .leaving t outcome) :
    ∃ s', Alone src dir locking q s s' ∧ s'.pc q = ended t outcome := by
  refine ⟨release dir locking s q t outcome, .one .release ?_ ?_, pc_setPc _⟩
  · unfold step
    rw [hpc]
  · exact fun r hr => pc_setPc_of_ne _ hr

theorem place_leaves {t : Target} {tmp : Dir α} (hpc : s.pc q = .generating t tmp []) :
    ∃ s' outcome, Alone src dir locking q s s' ∧ s'.pc q = .leaving t outcome ∧
      (s.folders (folder dir t) = none → tmp ≠ [] → outcome = .ok ()) := by
  have hstep : step src dir locking s q .place = some (place dir s q t tmp) := by
    unfold step
    rw [hpc]
  have hothers : ∀ r, r ≠ q → (place dir s q t tmp).pc r = s.pc r := by
    intro r hr
    unfold place
    split
    · exact pc_setPc_of_ne _ hr
    · dsimp only
      split <;> exact pc_setPc_of_ne _ hr
  refine ⟨place dir s q t tmp, ?_⟩
  suffices ∃ outcome, (place dir s q t tmp).pc q = .leaving t outcome ∧
      (s.folders (folder dir t) = none → tmp ≠ [] → outcome = .ok ()) by
    obtain ⟨outcome, hout, hok⟩ := this
    exact ⟨outcome, .one .place hstep hothers, hout, hok⟩
  unfold place
  split
  · next hempty => exact ⟨_, pc_setPc _, fun _ hne => absurd hempty hne⟩
  · dsimp only
    split
    · next hthere =>
      refine ⟨_, pc_setPc _, fun hnone => ?_⟩
      rw [hthere] at hnone
      cases hnone
    · exact ⟨_, pc_setPc _, fun _ _ => rfl⟩

/-- Writing what is left to write, and the move into place. -/
theorem generating_leaves {t : Target} {files : List (String × α)} :
    ∀ {s : State P α} {tmp : Dir α}, s.pc q = .generating t tmp files →
      ∃ s' outcome, Alone src dir locking q s s' ∧ s'.pc q = .leaving t outcome ∧
        (s.folders (folder dir t) = none → written tmp files ≠ [] → outcome = .ok ()) := by
  induction files with
  | nil => exact place_leaves
  | cons file files ih =>
    intro s tmp hpc
    have hstep : step src dir locking s q .write =
        some (s.setPc q (.generating t (OrdDict.set tmp file.1 file.2) files)) := by
      unfold step
      rw [hpc]
    obtain ⟨s', outcome, halone, hleft, hok⟩ := ih (pc_setPc (s := s) _)
    exact ⟨s', outcome, Alone.head .write hstep (fun r hr => pc_setPc_of_ne _ hr) halone, hleft, hok⟩

theorem locked_leaves {t : Target} (hpc : s.pc q = .locked t) (hs : Supported t) :
    ∃ s' outcome, Alone src dir locking q s s' ∧ s'.pc q = .leaving t outcome ∧
      (dataOf src t ≠ [] → outcome = .ok ()) := by
  have hstep : step src dir locking s q .recheck = some (s.setPc q (recheck src dir s t)) := by
    unfold step
    rw [hpc]
  have halone := Alone.one .recheck hstep fun r hr => pc_setPc_of_ne _ hr
  obtain ⟨files, hfiles⟩ := generateBenchmarkData_ok src hs
  cases hthere : s.folders (folder dir t) with
  | some found =>
    have hrecheck : recheck src dir s t = .leaving t (.ok ()) := by
      rw [recheck, hthere]
      rfl
    rw [hrecheck] at halone
    exact ⟨_, _, halone, pc_setPc _, fun _ => rfl⟩
  | none =>
    have hrecheck : recheck src dir s t = .generating t [] files := by
      rw [recheck, hthere, hfiles]
      rfl
    rw [hrecheck] at halone
    have hgenerating := pc_setPc (s := s) (p := q) (.generating t [] files)
    obtain ⟨s', outcome, hrest, hleft, hok⟩ := generating_leaves hgenerating
    refine ⟨s', outcome, halone.trans hrest, hleft, fun hdata => hok hthere ?_⟩
    rwa [dataOf, hfiles] at hdata

/-- A process under a lock can leave it, whatever the others do. -/
theorem lock_left {folders : String → Option (Dir α)} (h : Inv src dir locking folders s)
    {k : String} (hk : (s.pc q).lock dir = some k) :
    ∃ s', Alone src dir locking q s s' ∧ (s'.pc q).lock dir = none := by
  have hend : ∀ {s₁ : State P α} {t : Target} {outcome : Except PyErr Unit},
      Alone src dir locking q s s₁ → s₁.pc q = .leaving t outcome →
        ∃ s', Alone src dir locking q s s' ∧ (s'.pc q).lock dir = none := by
    intro s₁ t outcome halone hleft
    obtain ⟨s', hends, hpc⟩ := leaving_ends hleft
    refine ⟨s', halone.trans hends, ?_⟩
    rw [hpc]
    cases outcome <;> rfl
  have hok := h.procs q
  cases hpc : s.pc q with
  | locked t =>
    rw [hpc] at hok
    obtain ⟨s', outcome, halone, hleft, -⟩ := locked_leaves hpc hok
    exact hend halone hleft
  | generating t tmp files =>
    obtain ⟨s', outcome, halone, hleft, -⟩ := generating_leaves hpc
    exact hend halone hleft
  | leaving t outcome => exact hend (.refl s) hpc
  | idle => rw [hpc] at hk; cases hk
  | waiting t => rw [hpc] at hk; cases hk
  | returned t => rw [hpc] at hk; cases hk
  | raised t e => rw [hpc] at hk; cases hk
  | crashed => rw [hpc] at hk; cases hk

/-! ## Waiting calls -/

/-- With the lock free, a waiting call can return. -/
theorem returns_of_free {t : Target} (hpc : s.pc p = .waiting t) (hs : Supported t)
    (hdata : dataOf src t ≠ [])
    (hfree : locking = true → s.holder (lockPath dir t) = none) :
    ∃ s', Alone src dir locking p s s' ∧ s'.pc p = .returned t := by
  obtain ⟨s₁, hacquire, hlocked⟩ :
      ∃ s₁, Alone src dir locking p s s₁ ∧ s₁.pc p = .locked t := by
    cases locking with
    | false =>
      refine ⟨s.setPc p (.locked t), .one .acquire ?_ ?_, pc_setPc _⟩
      · unfold step
        rw [hpc]
        rfl
      · exact fun r hr => pc_setPc_of_ne _ hr
    | true =>
      have hstep : step src dir true s p .acquire = some { s.setPc p (.locked t) with
          holder := Function.update s.holder (lockPath dir t) (some p) } := by
        unfold step
        rw [hpc]
        exact if_pos (hfree rfl)
      exact ⟨_, .one .acquire hstep fun r hr => pc_setPc_of_ne _ hr, pc_setPc _⟩
  obtain ⟨s₂, outcome, hleave, hleft, hok⟩ := locked_leaves hlocked hs
  rw [hok hdata] at hleft
  obtain ⟨s₃, hends, hreturned⟩ := leaving_ends hleft
  exact ⟨s₃, (hacquire.trans hleave).trans hends, hreturned⟩

/-- No call waits in vain: from every state of every run, also after processes have died, the run
can go on so that a call that waits for the lock returns, if there is data to generate. -/
theorem waiting_returns {folders : String → Option (Dir α)} {actions : List (P × Action)}
    {t : Target} (hrun : run src dir locking (initial folders) actions = some s)
    (hpc : s.pc p = .waiting t) (hdata : dataOf src t ≠ []) :
    ∃ more s', run src dir locking s more = some s' ∧ s'.pc p = .returned t := by
  have hinv := inv_run (inv_initial folders) hrun
  have hs : (Pc.waiting t).Ok src dir locking s.folders := hpc ▸ hinv.procs p
  by_cases hfree : locking = true → s.holder (lockPath dir t) = none
  · obtain ⟨s', halone, hreturned⟩ := returns_of_free hpc hs hdata hfree
    obtain ⟨more, hmore⟩ := halone.runs
    exact ⟨more, s', hmore, hreturned⟩
  · -- the holder leaves first, on its own
    obtain ⟨hl, hheld⟩ : locking = true ∧ s.holder (lockPath dir t) ≠ none := by
      rwa [Classical.not_imp] at hfree
    obtain ⟨q, hq⟩ := Option.ne_none_iff_exists'.mp hheld
    have hinside : (s.pc q).lock dir = some (lockPath dir t) := ((hinv.locks hl) q _).mpr hq
    obtain ⟨s₁, halone, hout⟩ := lock_left hinv hinside
    obtain ⟨first, hfirst⟩ := halone.runs
    have hne : p ≠ q := by
      intro heq
      rw [← heq, hpc] at hinside
      cases hinside
    have hfree₁ : s₁.holder (lockPath dir t) = none := by
      cases hr : s₁.holder (lockPath dir t) with
      | none => rfl
      | some r =>
        have hrin : (s₁.pc r).lock dir = some (lockPath dir t) :=
          (((inv_run hinv hfirst).locks hl) r _).mpr hr
        by_cases hrq : r = q
        · rw [hrq, hout] at hrin
          cases hrin
        · rw [halone.others r hrq] at hrin
          exact absurd ((hinv.locks hl).exclusive hrin hinside) hrq
    obtain ⟨s', hreturn, hreturned⟩ :=
      returns_of_free ((halone.others p hne).trans hpc) hs hdata fun _ => hfree₁
    obtain ⟨rest, hrest⟩ := hreturn.runs
    exact ⟨first ++ rest, s', run_append hfirst hrest, hreturned⟩

/-- Both wait or hold the lock, and nothing is written yet. -/
theorem waiting_returns_takenOver :
    ∃ s, run oneTable "data" true (initial fun _ => none) (takenOver.take 4) = some s ∧
      ∃ more s', run oneTable "data" true s more = some s' ∧
        s'.pc false = .returned ⟨"tpch", 1⟩ :=
  ⟨_, rfl, waiting_returns (s := _) (rfl : run oneTable "data" true (initial fun _ => none)
    (takenOver.take 4) = some _) rfl (by decide)⟩

end

end DbPlanBench.LocalData
