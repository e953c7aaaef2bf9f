import DbPlanBench.Dispatch.Safety

/-!
# Every call can end

From every state of every run, a call that waits for a slot can be brought to its end,
also when all slots are in use: a thread that has one can get to the point where it gives
it back, whatever the others do (`inside_settles`), and the waiting call then goes through
its attempts one by one (`waiting_returns_alone`).
-/

namespace DbPlanBench.Dispatch

open Optimize (EngineResult)

section

variable {T : Type} [DecidableEq T] {s s' s'' : State T} {t u : T} {c : Call} {i : Nat}

theorem run_cons {event : Event T} {events : List (Event T)} (h : step s event = some s')
    (hrest : run s' events = some s'') : run s (event :: events) = some s'' :=
  Option.bind_eq_some_iff.mpr ⟨s', h, hrest⟩

theorem run_one (event : Event T) (h : step s event = some s') : run s [event] = some s' :=
  run_cons h rfl

theorem run_append {before after : List (Event T)} (h : run s before = some s')
    (hrest : run s' after = some s'') : run s (before ++ after) = some s'' := by
  rw [run, List.foldlM_append]
  exact Option.bind_eq_some_iff.mpr ⟨s', h, hrest⟩

theorem permits_run {events : List (Event T)} (h : Permits s) (hrun : run s events = some s') :
    Permits s' :=
  run_induction (fun _ _ _ h => h) (fun _ _ _ hmoves h => permits_moves hmoves h) h hrun

theorem pc_setPc (x : Pc) : (s.setPc t x).pc t = x := Function.update_self ..

/-- The clock can go on to a later time. -/
theorem step_clock {later : ℚ} (h : s.clock ≤ later) :
    step s (.tick (later - s.clock)) = some { s with clock := later } := by
  have hd : 0 ≤ later - s.clock := sub_nonneg.mpr h
  show (if 0 ≤ later - s.clock then _ else none) = _
  rw [if_pos hd]
  have hclock : s.clock + (later - s.clock) = later := by ring
  rw [hclock]

/-! ## The way to the end of an attempt -/

/-- Some events in which no other thread moves, after which this one has given its slot back. -/
def Settles (s : State T) (t : T) (c : Call) (i : Nat) : Prop :=
  ∃ events s', run s events = some s' ∧ s'.pc t = .settling c i ∧ s'.free = s.free + 1 ∧
    ∀ u, u ≠ t → s'.pc u = s.pc u

theorem Settles.step (event : Event T) (h : step s event = some s') (hfree : s'.free = s.free)
    (hothers : ∀ u, u ≠ t → s'.pc u = s.pc u) (hrest : Settles s' t c i) : Settles s t c i := by
  obtain ⟨events, last, hrun, hpc, hlast, hsame⟩ := hrest
  refine ⟨event :: events, last, run_cons h hrun, hpc, hfree ▸ hlast, fun u hu => ?_⟩
  rw [hsame u hu, hothers u hu]

theorem running_settles {runner : Runner} (hpc : s.pc t = .running c i runner) :
    Settles s t c i := by
  refine ⟨[.act t .finish], { s.setPc t (.settling c i) with free := s.free + 1 }, ?_, pc_setPc _, rfl,
    fun u hu => Function.update_of_ne hu ..⟩
  refine run_one (.act t .finish) ?_
  show act s t .finish = _
  unfold act
  rw [hpc]

theorem starting_settles (hpc : s.pc t = .starting c i) : Settles s t c i := by
  obtain ⟨runner, cache, hrunner⟩ : ∃ runner cache,
      getRunner s.cache c (.ok ()) = .ok (runner, cache) := by
    unfold getRunner
    split
    · split
      · exact ⟨_, _, rfl⟩
      · exact ⟨_, _, rfl⟩
    · exact ⟨_, _, rfl⟩
  have hstep : act s t (.getRunner (.ok ())) =
      some { s.setPc t (.running c i runner) with cache } := by
    unfold act
    rw [hpc]
    simp only [hrunner]
  exact .step (.act t (.getRunner (.ok ()))) hstep rfl (fun u hu => Function.update_of_ne hu ..)
    (running_settles (pc_setPc _))

theorem sleeping_settles {scheduled : ℚ} (hpc : s.pc t = .sleeping c i scheduled) :
    Settles s t c i := by
  refine .step _ (step_clock (le_max_left s.clock scheduled)) rfl (fun _ _ => rfl) ?_
  have hstep : act { s with clock := max s.clock scheduled } t .wake =
      some { s.setPc t (.starting c i) with
        clock := max s.clock scheduled
        starts := s.starts ++ [(scheduled, max s.clock scheduled)] } := by
    unfold act
    simp only [hpc, le_max_right, if_true]
    rfl
  exact .step (.act t .wake) hstep rfl (fun u hu => Function.update_of_ne hu ..)
    (starting_settles (pc_setPc _))

theorem asking_settles {now0 : ℚ} (hpc : s.pc t = .asking c i now0) : Settles s t c i := by
  have hjitter : (0 : ℚ) ≤ 0 ∧ 0 ≤ 1 / 5 * waitTime := by
    have hpos := waitTime_pos
    refine ⟨le_refl 0, ?_⟩
    linarith
  have hstep : act s t (.schedule 0) = some (schedule s t c i now0 0) := by
    unfold act
    simp only [hpc, if_pos hjitter]
  exact .step (.act t (.schedule 0)) hstep rfl (fun u hu => Function.update_of_ne hu ..)
    (sleeping_settles (pc_setPc _))

theorem entered_settles (hpc : s.pc t = .entered c i) : Settles s t c i := by
  have hstep : act s t .readClock = some (s.setPc t (.asking c i s.clock)) := by
    unfold act
    rw [hpc]
  exact .step (.act t .readClock) hstep rfl (fun u hu => Function.update_of_ne hu ..)
    (asking_settles (pc_setPc _))

/-- A thread with a slot can give it back on its own. -/
theorem inside_settles (h : (s.pc u).Inside) : ∃ c i, Settles s u c i := by
  cases hpc : s.pc u with
  | entered c i => exact ⟨c, i, entered_settles hpc⟩
  | asking c i now0 => exact ⟨c, i, asking_settles hpc⟩
  | sleeping c i scheduled => exact ⟨c, i, sleeping_settles hpc⟩
  | starting c i => exact ⟨c, i, starting_settles hpc⟩
  | running c i runner => exact ⟨c, i, running_settles hpc⟩
  | _ => rw [hpc] at h; exact h.elim

/-! ## Waiting calls -/

/-- With a free slot, a waiting thread can finish its attempt. -/
theorem free_settles {free : Nat} (hpc : s.pc t = .waiting c i) (hfree : s.free = free + 1) :
    ∃ events s', run s events = some s' ∧ s'.pc t = .settling c i := by
  obtain ⟨events, s', hrun, hsettling, -⟩ :=
    entered_settles (s := { s.setPc t (.entered c i) with free }) (pc_setPc _)
  refine ⟨.act t .acquire :: events, s', run_cons ?_ hrun, hsettling⟩
  show act s t .acquire = _
  unfold act
  simp only [hpc, hfree]

/-- A waiting thread can finish its attempt, after another one has given its slot back if need be. -/
theorem waiting_settles (h : Permits s) (hpc : s.pc t = .waiting c i) :
    ∃ events s', run s events = some s' ∧ s'.pc t = .settling c i := by
  cases hfree : s.free with
  | succ free => exact free_settles hpc hfree
  | zero =>
    obtain ⟨inside, hinside, hcard⟩ := h
    rw [hfree] at hcard
    have hpos : 0 < inside.card := by
      rw [← Nat.add_zero inside.card, hcard]
      exact Nat.succ_pos 99
    obtain ⟨u, hu⟩ := Finset.card_pos.mp hpos
    have huin := (hinside u).mp hu
    have hne : t ≠ u := by
      intro heq
      rw [← heq, hpc] at huin
      exact huin
    obtain ⟨c', i', before, s₁, hbefore, -, hone, hsame⟩ := inside_settles huin
    obtain ⟨after, s₂, hafter, hsettling⟩ := free_settles ((hsame t hne).trans hpc) hone
    exact ⟨before ++ after, s₂, run_append hbefore hafter, hsettling⟩

theorem act_settle (hpc : s.pc t = .settling c i) :
    act s t .settle = some (s.setPc t (settle s.clock c i)) := by
  unfold act
  rw [hpc]

/-- The wait before the next attempt can end. -/
theorem backoff_waits {wakes : ℚ} (hpc : s.pc t = .backoff c i wakes) :
    ∃ events s', run s events = some s' ∧ s'.pc t = .waiting c i := by
  have hwake : act { s with clock := max s.clock wakes } t .wakeUp =
      some { s.setPc t (.waiting c i) with clock := max s.clock wakes } := by
    unfold act
    simp only [hpc, le_max_right, if_true]
    rfl
  exact ⟨_, _, run_cons (step_clock (le_max_left s.clock wakes)) (run_one (.act t .wakeUp) hwake),
    pc_setPc _⟩

/-- The attempts that are left, one by one. -/
theorem waiting_ends (left : Nat) : ∀ {s : State T} {i : Nat}, Permits s →
    s.pc t = .waiting c i → c.nRetry.toNat ≤ i + left →
      ∃ events s' r, run s events = some s' ∧ s'.pc t = .returned c r := by
  induction left with
  | zero =>
    intro s i h hpc hle
    obtain ⟨events, s₁, hrun, hsettling⟩ := waiting_settles h hpc
    have hlast : settle s₁.clock c i = .returned c (Optimize.finalResult (c.attempt i).result) :=
      if_neg fun hcont => by omega
    exact ⟨_, _, _, run_append hrun (run_one (.act t .settle) (act_settle hsettling)),
      (pc_setPc _).trans hlast⟩
  | succ left ih =>
    intro s i h hpc hle
    obtain ⟨events, s₁, hrun, hsettling⟩ := waiting_settles h hpc
    have hsettled := run_append hrun (run_one (.act t .settle) (act_settle hsettling))
    by_cases hcont : i < c.nRetry.toNat ∧ Optimize.triesAgain i (c.attempt i).result = true
    · have hbackoff : settle s₁.clock c i = .backoff c (i + 1) (s₁.clock + min (2 ^ (i + 1)) 10) :=
        if_pos hcont
      have hpc₁ := (pc_setPc (s := s₁) (t := t) (settle s₁.clock c i)).trans hbackoff
      obtain ⟨wait, s₂, hwait, hwaiting⟩ := backoff_waits hpc₁
      have hnext := run_append hsettled hwait
      obtain ⟨rest, s₃, r, hrest, hreturned⟩ := ih (permits_run h hnext) hwaiting (by omega)
      exact ⟨_, s₃, r, run_append hnext hrest, hreturned⟩
    · have hlast : settle s₁.clock c i = .returned c (Optimize.finalResult (c.attempt i).result) :=
        if_neg hcont
      exact ⟨_, _, _, hsettled, (pc_setPc _).trans hlast⟩

/-- No call waits in vain: from every state of every run, however many threads have slots, the run
can go on so that a waiting call returns, with the result that it has alone. -/
theorem waiting_returns_alone {clock : ℚ} {events : List (Event T)}
    (hrun : run (initial clock) events = some s) (hpc : s.pc t = .waiting c i) :
    ∃ more s' r, run s more = some s' ∧ s'.pc t = .returned c r ∧
      (Optimize.submitRemote c.attempt c.nRetry).result = .ok r := by
  have h := permits_run (permits_initial clock) hrun
  obtain ⟨more, s', r, hmore, hreturned⟩ := waiting_ends c.nRetry.toNat h hpc (Nat.le_add_left ..)
  have hproc := (calls_run (run_append hrun hmore)).procs t
  rw [hreturned] at hproc
  exact ⟨more, s', r, hmore, hreturned, hproc⟩

/-- A call whose first attempt leaves no result. -/
def secondTry : Call :=
  ⟨2, none, false, fun i => ⟨.ok (some "uuid"), .ok (if i = 0 then none else some ⟨"", []⟩)⟩⟩

/-- As many threads as there are slots, each with one. -/
def fullHouse : List (Event Nat) :=
  (List.range maxConcurrentSandboxes).flatMap fun t =>
    [.act t (.call firstTry), .act t .acquire]

theorem fullHouse_idle : ∃ s : State Nat, run (initial 5) fullHouse = some s ∧ s.free = 0 ∧
    s.pc maxConcurrentSandboxes = .idle := by
  have h : ((run (initial 5) fullHouse).any fun s =>
      s.free == 0 && (s.pc maxConcurrentSandboxes matches .idle)) = true := by decide +kernel
  cases hrun : run (initial 5) fullHouse with
  | none => simp [hrun] at h
  | some s =>
    rw [hrun, Option.any_some, Bool.and_eq_true, beq_iff_eq] at h
    refine ⟨s, rfl, h.1, ?_⟩
    cases hpc : s.pc maxConcurrentSandboxes with
    | idle => rfl
    | _ => simp [hpc] at h

/-- One more thread waits, and has to try twice. -/
theorem waiting_returns_alone_fullHouse :
    ∃ s : State Nat, run (initial 5) (fullHouse ++ [.act 100 (.call secondTry)]) = some s ∧
      s.free = 0 ∧ s.pc 100 = .waiting secondTry 0 ∧
      ∃ more s', run s more = some s' ∧ s'.pc 100 = .returned secondTry ⟨"", []⟩ := by
  obtain ⟨s, hrun, hfree, hpc⟩ := fullHouse_idle
  have hcall : act s 100 (.call secondTry) = some (s.setPc 100 (.waiting secondTry 0)) := by
    unfold act
    rw [show s.pc 100 = .idle from hpc]
    rfl
  have hwaits := run_append hrun (run_one (.act 100 (.call secondTry)) hcall)
  obtain ⟨more, s', r, hmore, hreturned, halone⟩ := waiting_returns_alone hwaits (pc_setPc _)
  obtain rfl : (⟨"", []⟩ : EngineResult) = r := Except.ok.inj halone
  exact ⟨_, hwaits, hfree, pc_setPc _, more, s', hmore, hreturned⟩

end

end DbPlanBench.Dispatch
