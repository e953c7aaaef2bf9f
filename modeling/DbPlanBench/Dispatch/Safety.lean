import DbPlanBench.Dispatch.Protocol

/-!
# The limits of the dispatcher

In every state of every run the slots for sandboxes that are in use and the free ones are
together as many as there are, also after exceptions (`permits_of_run`). The gate gives out
times that are at least `WAIT_TIME` apart and none before it was asked, and no thread
starts before its time (`starts_of_run`). And whatever the other threads do, a call
returns what it returns alone, and runs with a runner for its own scale factor
(`calls_of_run`).

* `Moves` — what one action does, case by case.
* `Permits`, `Gated`, `Calls` — the invariants.
-/

namespace DbPlanBench.Dispatch

open Optimize (Attempt EngineResult)

/-- The thread has a slot for a sandbox. -/
def Pc.Inside : Pc → Prop
  | .entered .. | .asking .. | .sleeping .. | .starting .. | .running .. => True
  | .idle | .backoff .. | .waiting .. | .settling .. | .returned .. | .raised .. => False

section

variable {T : Type} [DecidableEq T] {s s' : State T} {t : T}

/-! ## What an action does -/

/-- The cases of an action. -/
inductive Moves (s : State T) (t : T) : State T → Prop
  | call {c : Call} (hout : ¬ (s.pc t).Inside) : Moves s t (s.setPc t (enter c))
  | wakeUp {c : Call} {i : Nat} {wakes : ℚ} (hpc : s.pc t = .backoff c i wakes) :
      Moves s t (s.setPc t (.waiting c i))
  | acquire {c : Call} {i free : Nat} (hpc : s.pc t = .waiting c i) (hfree : s.free = free + 1) :
      Moves s t { s.setPc t (.entered c i) with free }
  | readClock {c : Call} {i : Nat} (hpc : s.pc t = .entered c i) :
      Moves s t (s.setPc t (.asking c i s.clock))
  | schedule {c : Call} {i : Nat} {now0 jitter : ℚ} (hpc : s.pc t = .asking c i now0)
      (hjitter : 0 ≤ jitter) : Moves s t (schedule s t c i now0 jitter)
  | wake {c : Call} {i : Nat} {scheduled : ℚ} (hpc : s.pc t = .sleeping c i scheduled)
      (hdue : scheduled ≤ s.clock) : Moves s t
        { s.setPc t (.starting c i) with starts := s.starts ++ [(scheduled, s.clock)] }
  | getRunner {c : Call} {i : Nat} {built : Except PyErr Unit} {runner : Runner}
      {cache : List (Int × Runner)} (hpc : s.pc t = .starting c i)
      (hrunner : getRunner s.cache c built = .ok (runner, cache)) :
      Moves s t { s.setPc t (.running c i runner) with cache }
  | refused {c : Call} {i : Nat} {e : PyErr} (hpc : s.pc t = .starting c i) :
      Moves s t { s.setPc t (.raised c e) with free := s.free + 1 }
  | finish {c : Call} {i : Nat} {runner : Runner} (hpc : s.pc t = .running c i runner) :
      Moves s t { s.setPc t (.settling c i) with free := s.free + 1 }
  | settle {c : Call} {i : Nat} (hpc : s.pc t = .settling c i) :
      Moves s t (s.setPc t (settle s.clock c i))

theorem moves_of_act {action : Action} (h : act s t action = some s') : Moves s t s' := by
  unfold act at h
  split at h
  case h_1 _ hpc => exact Option.some.inj h ▸ .call (by rw [hpc]; exact id)
  case h_2 _ hpc => exact Option.some.inj h ▸ .call (by rw [hpc]; exact id)
  case h_3 _ hpc => exact Option.some.inj h ▸ .call (by rw [hpc]; exact id)
  case h_4 c i wakes hpc =>
    split at h
    · exact Option.some.inj h ▸ .wakeUp hpc
    · cases h
  case h_5 c i hpc =>
    split at h
    · cases h
    · next hfree => exact Option.some.inj h ▸ .acquire hpc hfree
  case h_6 c i hpc => exact Option.some.inj h ▸ .readClock hpc
  case h_7 jitter c i now0 hpc =>
    split at h
    · next hjitter => exact Option.some.inj h ▸ .schedule hpc hjitter.1
    · cases h
  case h_8 c i scheduled hpc =>
    split at h
    · next hdue => exact Option.some.inj h ▸ .wake hpc hdue
    · cases h
  case h_9 built c i hpc =>
    split at h
    · next hrunner => exact Option.some.inj h ▸ .getRunner hpc hrunner
    · exact Option.some.inj h ▸ .refused hpc
  case h_10 c i runner hpc => exact Option.some.inj h ▸ .finish hpc
  case h_11 c i hpc => exact Option.some.inj h ▸ .settle hpc
  case h_12 => cases h

/-- A property of states that the clock and every action keep holds in every run. -/
theorem run_induction {Q : State T → Prop} {events : List (Event T)}
    (htick : ∀ s d, 0 ≤ d → Q s → Q { s with clock := s.clock + d })
    (hact : ∀ s t s', Moves s t s' → Q s → Q s') (h : Q s) (hrun : run s events = some s') :
    Q s' := by
  induction events generalizing s with
  | nil => exact Option.some.inj hrun ▸ h
  | cons event events ih =>
    obtain ⟨next, hstep, hrest⟩ := Option.bind_eq_some_iff.mp hrun
    refine ih ?_ hrest
    cases event with
    | tick d =>
      have htime : (if 0 ≤ d then some { s with clock := s.clock + d } else none) = some next := hstep
      by_cases hd : 0 ≤ d
      · rw [if_pos hd] at htime
        exact Option.some.inj htime ▸ htick s d hd h
      · rw [if_neg hd] at htime
        cases htime
    | act t action => exact hact s t next (moves_of_act hstep) h

/-! ## The slots for sandboxes -/

/-- The slots in use and the free ones are all there are. -/
def Permits (s : State T) : Prop :=
  Gate.Counted (fun t => (s.pc t).Inside) s.free maxConcurrentSandboxes

theorem inside_setPc (pc : T → Pc) (t u : T) (x : Pc) :
    (Function.update pc t x u).Inside ↔ u = t ∧ x.Inside ∨ u ≠ t ∧ (pc u).Inside := by
  by_cases hu : u = t
  · rw [hu, Function.update_self]
    simp
  · rw [Function.update_of_ne hu]
    simp [hu]

theorem Permits.same {x : Pc} (h : Permits s) (hx : x.Inside ↔ (s.pc t).Inside) :
    Permits (s.setPc t x) := by
  refine h.congr fun u => ?_
  show (Function.update s.pc t x u).Inside ↔ (s.pc u).Inside
  rw [inside_setPc]
  by_cases hu : u = t
  · simp [hu, hx]
  · simp [hu]

theorem Permits.entered {x : Pc} {free : Nat} (h : Permits s) (hfree : s.free = free + 1)
    (hout : ¬ (s.pc t).Inside) (hx : x.Inside) : Permits { s.setPc t x with free } := by
  have hcount : Gate.Counted (fun t => (s.pc t).Inside) (free + 1) maxConcurrentSandboxes :=
    hfree ▸ h
  refine hcount.enter hout fun u => ?_
  show (Function.update s.pc t x u).Inside ↔ _
  rw [inside_setPc]
  by_cases hu : u = t
  · simp [hu, hx]
  · simp [hu]

theorem Permits.left {x : Pc} (h : Permits s) (hin : (s.pc t).Inside) (hx : ¬ x.Inside) :
    Permits { s.setPc t x with free := s.free + 1 } := by
  refine Gate.Counted.leave h hin fun u => ?_
  show (Function.update s.pc t x u).Inside ↔ _
  rw [inside_setPc]
  simp [hx]

theorem enter_outside (c : Call) : ¬ (enter c).Inside := by
  unfold enter
  split <;> exact id

theorem settle_outside (clock : ℚ) (c : Call) (i : Nat) : ¬ (settle clock c i).Inside := by
  unfold settle
  split <;> exact id

theorem permits_moves (hmoves : Moves s t s') (h : Permits s) : Permits s' := by
  cases hmoves with
  | call hout => exact h.same (iff_of_false (enter_outside _) hout)
  | wakeUp hpc => exact h.same (by rw [hpc]; exact Iff.rfl)
  | acquire hpc hfree => exact h.entered hfree (by rw [hpc]; exact id) trivial
  | readClock hpc => exact h.same (by rw [hpc]; exact Iff.rfl)
  | schedule hpc => exact h.same (by rw [hpc]; exact Iff.rfl)
  | wake hpc => exact h.same (by rw [hpc]; exact Iff.rfl)
  | getRunner hpc => exact h.same (by rw [hpc]; exact Iff.rfl)
  | refused hpc => exact h.left (by rw [hpc]; trivial) id
  | finish hpc => exact h.left (by rw [hpc]; trivial) id
  | settle hpc => exact h.same (iff_of_false (settle_outside _ _ _) (by rw [hpc]; exact id))

omit [DecidableEq T] in
theorem permits_initial (clock : ℚ) : Permits (initial clock : State T) :=
  ⟨∅, fun _ => iff_of_false (Finset.notMem_empty _) id, by rw [Finset.card_empty]; rfl⟩

/-- A call that succeeds at once. -/
def firstTry : Call := ⟨2, none, false, fun _ => ⟨.ok (some "uuid"), .ok (some ⟨"", []⟩)⟩⟩

/-- Two threads at the gate at once. -/
def twoCalls : List (Event Bool) :=
  [.act true (.call firstTry), .act false (.call firstTry), .act true .acquire,
    .act false .acquire, .act true .readClock, .act false .readClock, .act true (.schedule 0),
    .act false (.schedule 0), .act true .wake, .tick 1, .act false .wake,
    .act true (.getRunner (.ok ())), .act true .finish, .act true .settle]

/-- In every state of every run the threads that have a slot and the free slots are together
`MAX_CONCURRENT_SANDBOXES`: no slot is ever lost, and no more threads than that have one. -/
theorem permits_of_run {clock : ℚ} {events : List (Event T)}
    (hrun : run (initial clock) events = some s) :
    (∃ inside : Finset T, (∀ t, t ∈ inside ↔ (s.pc t).Inside) ∧
      inside.card + s.free = maxConcurrentSandboxes) ∧
    ∀ l : List T, l.Nodup → (∀ t ∈ l, (s.pc t).Inside) → l.length ≤ maxConcurrentSandboxes := by
  have h : Permits s := run_induction (fun _ _ _ h => h) (fun _ _ _ hmoves h => permits_moves hmoves h)
    (permits_initial clock) hrun
  exact ⟨h, fun l hnodup hl => h.length_le hnodup hl⟩

theorem permits_of_run_twoCalls : ∃ s, run (initial 5) twoCalls = some s ∧
    ∃ inside : Finset Bool, (∀ t, t ∈ inside ↔ (s.pc t).Inside) ∧
      inside.card + s.free = maxConcurrentSandboxes := by
  have hruns : (run (initial 5) twoCalls).isSome = true := by decide +kernel
  obtain ⟨s, hrun⟩ := Option.isSome_iff_exists.mp hruns
  exact ⟨s, hrun, (permits_of_run hrun).1⟩

/-! ## The gate -/

/-- What a thread knows about the time. -/
def Pc.Timed (since : ℚ) (s : State T) : Pc → Prop
  | .asking _ _ now0 => since ≤ now0
  | .sleeping _ _ scheduled => scheduled ∈ s.slots ∧ scheduled ∉ s.starts.map Prod.fst
  | _ => True

/-- The times that the gate has given out since the clock showed `since`, and the starts. -/
structure Gated (since : ℚ) (s : State T) : Prop where
  clock : since ≤ s.clock
  spaced : Gate.Spaced waitTime s.slots
  latest : ∀ x ∈ s.slots, x + waitTime ≤ s.latest
  early : ∀ x ∈ s.slots, since ≤ x
  starts : ∀ x ∈ s.starts, x.1 ∈ s.slots ∧ x.1 ≤ x.2 ∧ x.2 ≤ s.clock
  once : (s.starts.map Prod.fst).Nodup
  timed : ∀ t, (s.pc t).Timed since s
  apart : ∀ t u c i c' i' x, s.pc t = .sleeping c i x → s.pc u = .sleeping c' i' x → t = u

theorem waitTime_pos : 0 < waitTime := by
  unfold waitTime rateLimitPerSec
  norm_num

omit [DecidableEq T] in
theorem gated_initial (clock : ℚ) : Gated clock (initial clock : State T) where
  clock := le_refl clock
  spaced := List.Pairwise.nil
  latest := nofun
  early := nofun
  starts := nofun
  once := List.nodup_nil
  timed := fun _ => trivial
  apart := fun t u c i c' i' x h => by cases h

omit [DecidableEq T] in
theorem gated_tick {since d : ℚ} (hd : 0 ≤ d) (h : Gated since s) :
    Gated since { s with clock := s.clock + d } where
  clock := h.clock.trans (le_add_of_nonneg_right hd)
  spaced := h.spaced
  latest := h.latest
  early := h.early
  starts := fun x hx => by
    obtain ⟨hslot, hle, hclock⟩ := h.starts x hx
    exact ⟨hslot, hle, hclock.trans (le_add_of_nonneg_right hd)⟩
  once := h.once
  timed := h.timed
  apart := h.apart

/-- A thread that does not go to sleep moves on. -/
theorem Gated.setPc {since : ℚ} (h : Gated since s) {x : Pc} (htimed : x.Timed since s)
    (hawake : ∀ c i slot, x ≠ .sleeping c i slot) : Gated since (s.setPc t x) where
  clock := h.clock
  spaced := h.spaced
  latest := h.latest
  early := h.early
  starts := h.starts
  once := h.once
  timed := fun u => by
    show (Function.update s.pc t x u).Timed since s
    by_cases hu : u = t
    · rw [hu, Function.update_self]
      exact htimed
    · rw [Function.update_of_ne hu]
      exact h.timed u
  apart := fun u v c i c' i' slot hu hv => by
    have hne : ∀ w c i, (s.setPc t x).pc w = .sleeping c i slot → w ≠ t := by
      intro w c i hw hwt
      rw [hwt] at hw
      exact hawake c i slot ((Function.update_self ..).symm.trans hw)
    have hold : ∀ w c i, (s.setPc t x).pc w = .sleeping c i slot → s.pc w = .sleeping c i slot := by
      intro w c i hw
      exact (Function.update_of_ne (hne w c i hw) ..).symm.trans hw
    exact h.apart u v c i c' i' slot (hold u c i hu) (hold v c' i' hv)

omit [DecidableEq T] in
/-- The other parts of a state are not about time. -/
theorem Gated.congr {since : ℚ} (h : Gated since s) {free : Nat} {cache : List (Int × Runner)} :
    Gated since { s with free, cache } where
  clock := h.clock
  spaced := h.spaced
  latest := h.latest
  early := h.early
  starts := h.starts
  once := h.once
  timed := h.timed
  apart := h.apart

/-- The gate gives out a time after all that it has given out. -/
theorem gated_schedule {since : ℚ} {c : Call} {i : Nat} {now0 jitter : ℚ} (h : Gated since s)
    (hpc : s.pc t = .asking c i now0) (hjitter : 0 ≤ jitter) :
    Gated since (schedule s t c i now0 jitter) := by
  have hnow : since ≤ now0 := by
    have htimed := h.timed t
    rw [hpc] at htimed
    exact htimed
  have hlatest : s.latest ≤ max s.latest now0 := le_max_left ..
  have hasked : now0 ≤ max s.latest now0 := le_max_right ..
  have hpos := waitTime_pos
  have hafter : ∀ x ∈ s.slots, x + waitTime ≤ max s.latest now0 + jitter := by
    intro x hx
    have hx := h.latest x hx
    linarith
  have hfresh : max s.latest now0 + jitter ∉ s.slots := by
    intro hmem
    have hself := hafter _ hmem
    linarith
  refine ⟨h.clock, h.spaced.concat hafter, fun x hx => ?_, fun x hx => ?_, fun x hx => ?_, h.once,
    fun u => ?_, fun u v c' i' c'' i'' x hu hv => ?_⟩
  · show x + waitTime ≤ max s.latest now0 + jitter + waitTime
    rcases List.mem_append.mp hx with hx | hx
    · have hx := h.latest x hx
      linarith
    · rw [List.mem_singleton.mp hx]
  · rcases List.mem_append.mp hx with hx | hx
    · exact h.early x hx
    · rw [List.mem_singleton.mp hx]
      linarith
  · obtain ⟨hslot, hrest⟩ := h.starts x hx
    exact ⟨List.mem_append_left _ hslot, hrest⟩
  · show (Function.update s.pc t _ u).Timed since (schedule s t c i now0 jitter)
    by_cases hu : u = t
    · rw [hu, Function.update_self]
      refine ⟨List.mem_append_right _ (List.mem_singleton_self _), fun hmem => ?_⟩
      obtain ⟨start, hstart, heq⟩ := List.mem_map.mp hmem
      exact hfresh (heq ▸ (h.starts start hstart).1)
    · rw [Function.update_of_ne hu]
      have htimed := h.timed u
      cases hpcu : s.pc u with
      | sleeping c' i' x =>
        rw [hpcu] at htimed
        exact ⟨List.mem_append_left _ htimed.1, htimed.2⟩
      | asking c' i' x =>
        rw [hpcu] at htimed
        exact htimed
      | _ => trivial
  · have hcases : ∀ w c' i', (schedule s t c i now0 jitter).pc w = .sleeping c' i' x →
        w = t ∧ x = max s.latest now0 + jitter ∨ w ≠ t ∧ x ∈ s.slots ∧ s.pc w = .sleeping c' i' x := by
      intro w c' i' hw
      by_cases hwt : w = t
      · rw [hwt] at hw
        have hself := (Function.update_self ..).symm.trans hw
        cases hself
        exact .inl ⟨hwt, rfl⟩
      · have hold : s.pc w = .sleeping c' i' x := (Function.update_of_ne hwt ..).symm.trans hw
        have htimed := h.timed w
        rw [hold] at htimed
        exact .inr ⟨hwt, htimed.1, hold⟩
    rcases hcases u c' i' hu with ⟨hut, hx⟩ | ⟨-, hxu, hu⟩ <;>
      rcases hcases v c'' i'' hv with ⟨hvt, hx'⟩ | ⟨-, hxv, hv⟩
    · rw [hut, hvt]
    · exact absurd (hx ▸ hxv) hfresh
    · exact absurd (hx' ▸ hxu) hfresh
    · exact h.apart u v c' i' c'' i'' x hu hv

/-- A thread wakes up at or after its time, and nobody else has the same. -/
theorem gated_wake {since : ℚ} {c : Call} {i : Nat} {scheduled : ℚ} (h : Gated since s)
    (hpc : s.pc t = .sleeping c i scheduled) (hdue : scheduled ≤ s.clock) :
    Gated since { s.setPc t (.starting c i) with starts := s.starts ++ [(scheduled, s.clock)] } := by
  have hmoved : Gated since (s.setPc t (.starting c i)) := h.setPc trivial fun _ _ _ => by nofun
  have hslot := h.timed t
  rw [hpc] at hslot
  refine { hmoved with starts := fun x hx => ?_, once := ?_, timed := fun u => ?_ }
  · rcases List.mem_append.mp hx with hx | hx
    · exact h.starts x hx
    · rw [List.mem_singleton.mp hx]
      exact ⟨hslot.1, hdue, le_refl _⟩
  · rw [List.map_append]
    refine List.nodup_append.mpr ⟨h.once, List.nodup_singleton _, ?_⟩
    rintro a ha b hb rfl
    rw [List.mem_singleton.mp hb] at ha
    exact hslot.2 ha
  · have htimed := hmoved.timed u
    show ((s.setPc t (.starting c i)).pc u).Timed since _
    cases hpcu : (s.setPc t (.starting c i)).pc u with
    | sleeping c' i' x =>
      rw [hpcu] at htimed
      refine ⟨htimed.1, fun hmem => ?_⟩
      rw [List.map_append] at hmem
      rcases List.mem_append.mp hmem with hmem | hmem
      · exact htimed.2 hmem
      · have hut : u ≠ t := by
          intro hut
          rw [hut] at hpcu
          cases (Function.update_self ..).symm.trans hpcu
        have hx : x = scheduled := List.mem_singleton.mp hmem
        have hold : s.pc u = .sleeping c' i' scheduled :=
          hx ▸ (Function.update_of_ne hut ..).symm.trans hpcu
        exact hut (h.apart u t _ _ _ _ scheduled hold hpc)
    | asking c' i' x =>
      rw [hpcu] at htimed
      exact htimed
    | _ => trivial

theorem gated_moves {since : ℚ} (hmoves : Moves s t s') (h : Gated since s) : Gated since s' := by
  cases hmoves with
  | @call c hout =>
    refine h.setPc ?_ fun _ _ _ => ?_ <;> unfold enter <;> split
    · trivial
    · trivial
    · nofun
    · nofun
  | wakeUp hpc => exact h.setPc trivial fun _ _ _ => by nofun
  | @acquire c i free hpc hfree =>
    have hmoved : Gated since (s.setPc t (.entered c i)) := h.setPc trivial fun _ _ _ => by nofun
    exact hmoved.congr
  | readClock hpc => exact h.setPc h.clock fun _ _ _ => by nofun
  | schedule hpc hjitter => exact gated_schedule h hpc hjitter
  | wake hpc hdue => exact gated_wake h hpc hdue
  | @getRunner c i built runner cache hpc hrunner =>
    have hmoved : Gated since (s.setPc t (.running c i runner)) :=
      h.setPc trivial fun _ _ _ => by nofun
    exact hmoved.congr
  | @refused c i e hpc =>
    have hmoved : Gated since (s.setPc t (.raised c e)) := h.setPc trivial fun _ _ _ => by nofun
    exact hmoved.congr
  | @finish c i runner hpc =>
    have hmoved : Gated since (s.setPc t (.settling c i)) := h.setPc trivial fun _ _ _ => by nofun
    exact hmoved.congr
  | @settle c i hpc =>
    refine h.setPc ?_ fun _ _ _ => ?_ <;> unfold settle <;> split
    · trivial
    · trivial
    · nofun
    · nofun

omit [DecidableEq T] in
/-- How many of the times that the gate has given out lie in a window. -/
theorem Gated.length_le {since : ℚ} (h : Gated since s) {a b : ℚ} (hab : a ≤ b) {slots : List ℚ}
    (hnodup : slots.Nodup) (hslots : ∀ x ∈ slots, x ∈ s.slots ∧ a ≤ x ∧ x ≤ b) :
    (slots.length : ℚ) ≤ rateLimitPerSec * (b - a) + 1 := by
  have hlen := Gate.length_le_of_slots h.spaced hab waitTime_pos.le hnodup hslots
  have hrate : rateLimitPerSec * waitTime = 1 := by
    unfold waitTime rateLimitPerSec
    norm_num
  have hpos : (0 : ℚ) ≤ rateLimitPerSec := by
    unfold rateLimitPerSec
    norm_num
  calc (slots.length : ℚ)
      = rateLimitPerSec * ((slots.length : ℚ) * waitTime) := by
        rw [mul_left_comm, hrate, mul_one]
    _ ≤ rateLimitPerSec * (b - a + waitTime) := mul_le_mul_of_nonneg_left hlen hpos
    _ = rateLimitPerSec * (b - a) + 1 := by rw [mul_add, hrate]

/-- In every run the gate gives out times that are `WAIT_TIME` apart, no thread starts before its
time, and each time is used once. So as many starts as the rate allows, and one more, have happened
since the beginning, and as many lie between any two times, apart from those that are more than
`late` after their time. -/
theorem starts_of_run {clock : ℚ} {events : List (Event T)}
    (hrun : run (initial clock) events = some s) :
    Gate.Spaced waitTime s.slots ∧
    (∀ x ∈ s.starts, x.1 ∈ s.slots ∧ clock ≤ x.1 ∧ x.1 ≤ x.2 ∧ x.2 ≤ s.clock) ∧
    (s.starts.map Prod.fst).Nodup ∧
    (s.starts.length : ℚ) ≤ rateLimitPerSec * (s.clock - clock) + 1 ∧
    ∀ a b late : ℚ, a ≤ b → 0 ≤ late →
      ((s.starts.filter fun x => a ≤ x.2 ∧ x.2 ≤ b ∧ x.2 ≤ x.1 + late).length : ℚ) ≤
        rateLimitPerSec * (b - a + late) + 1 := by
  have h : Gated clock s := run_induction (fun _ _ hd h => gated_tick hd h)
    (fun _ _ _ hmoves h => gated_moves hmoves h) (gated_initial clock) hrun
  refine ⟨h.spaced, fun x hx => ?_, h.once, ?_, fun a b late hab hlate => ?_⟩
  · obtain ⟨hslot, hdue, hclock⟩ := h.starts x hx
    exact ⟨hslot, h.early _ hslot, hdue, hclock⟩
  · rw [← List.length_map Prod.fst]
    refine h.length_le h.clock h.once fun x hx => ?_
    obtain ⟨start, hstart, rfl⟩ := List.mem_map.mp hx
    obtain ⟨hslot, hdue, hclock⟩ := h.starts start hstart
    exact ⟨hslot, h.early _ hslot, hdue.trans hclock⟩
  · -- their times lie in a window that begins `late` earlier
    have hwindow : b - a + late = b - (a - late) := by ring
    rw [hwindow, ← List.length_map Prod.fst]
    refine h.length_le (by linarith) (h.once.sublist (List.filter_sublist.map Prod.fst))
      fun x hx => ?_
    obtain ⟨start, hstart, rfl⟩ := List.mem_map.mp hx
    obtain ⟨hmem, hin⟩ := List.mem_filter.mp hstart
    obtain ⟨ha, hb, hle⟩ := of_decide_eq_true hin
    obtain ⟨hslot, hdue, -⟩ := h.starts start hmem
    refine ⟨hslot, ?_, ?_⟩ <;> linarith

theorem starts_of_run_twoCalls : ∃ s, run (initial 5) twoCalls = some s ∧
    s.starts = [(5, 5), (5 + 1 / 4, 6)] ∧
      (s.starts.length : ℚ) ≤ rateLimitPerSec * (s.clock - 5) + 1 := by
  have hstarts : (run (initial 5) twoCalls).map (·.starts) = some [(5, 5), (5 + 1 / 4, 6)] := by
    decide +kernel
  obtain ⟨s, hrun, hs⟩ := Option.map_eq_some_iff.mp hstarts
  exact ⟨s, hrun, hs, (starts_of_run hrun).2.2.2.1⟩

/-! ## Calls -/

/-- The call made alone. -/
def Call.alone (c : Call) : Logged Nat PyErr EngineResult :=
  Optimize.submitRemote c.attempt c.nRetry

/-- The thread is where its call could be if it were alone. -/
def Pc.Sequential : Pc → Prop
  | .backoff c i _ | .waiting c i | .entered c i | .asking c i _ | .sleeping c i _ | .starting c i
  | .settling c i => 0 ≤ c.nRetry ∧ i ∈ c.alone.log
  | .running c i runner => (0 ≤ c.nRetry ∧ i ∈ c.alone.log) ∧ runner.scaleFactor = c.scale
  | .returned c r => c.alone.result = .ok r
  | .raised c e => c.nRetry < 0 → c.alone.result = .error e
  | .idle => True

/-- Every runner in the cache is under its own scale factor, and every call is where it could be. -/
structure Calls (s : State T) : Prop where
  cache : ∀ k runner, OrdDict.get? s.cache k = some runner → runner.scaleFactor = k
  procs : ∀ t, (s.pc t).Sequential

theorem enter_sequential (c : Call) : (enter c).Sequential := by
  unfold enter
  split
  · next hneg =>
    intro _
    rw [Call.alone, Optimize.submitRemote, if_pos hneg]
    rfl
  · next hpos =>
    obtain ⟨n, hn⟩ := Int.eq_ofNat_of_zero_le (Int.not_lt.mp hpos)
    refine ⟨Int.not_lt.mp hpos, ?_⟩
    rw [Call.alone, hn]
    exact Optimize.mem_log_iff.mpr fun j hj => absurd hj (Nat.not_lt_zero j)

/-- The decision after an attempt is the one of the loop. -/
theorem settle_sequential {clock : ℚ} {c : Call} {i : Nat} (h : (Pc.settling c i).Sequential) :
    (settle clock c i).Sequential := by
  obtain ⟨hpos, hlog⟩ := h
  obtain ⟨n, hn⟩ := Int.eq_ofNat_of_zero_le hpos
  rw [Call.alone, hn] at hlog
  unfold settle
  rw [hn, Int.toNat_natCast]
  split
  · next hcont =>
    refine ⟨hpos, ?_⟩
    rw [Call.alone, hn]
    exact (Optimize.succ_mem_log_iff hlog).mpr hcont
  · next hlast =>
    show c.alone.result = _
    rw [Call.alone, hn]
    exact Optimize.result_of_last hlog hlast

/-- The cache gives a runner for the scale factor that is asked for. -/
theorem getRunner_spec {cache cache' : List (Int × Runner)} {c : Call} {built : Except PyErr Unit}
    {runner : Runner} (hcache : ∀ k r, OrdDict.get? cache k = some r → r.scaleFactor = k)
    (h : getRunner cache c built = .ok (runner, cache')) :
    runner.scaleFactor = c.scale ∧ ∀ k r, OrdDict.get? cache' k = some r → r.scaleFactor = k := by
  have hbuilt : built.map (fun _ => ((⟨c.scale⟩ : Runner), OrdDict.set cache c.scale ⟨c.scale⟩)) =
      .ok (runner, cache') →
      runner.scaleFactor = c.scale ∧ ∀ k r, OrdDict.get? cache' k = some r → r.scaleFactor = k := by
    intro hb
    cases built with
    | error e => cases hb
    | ok _ =>
      cases hb
      refine ⟨rfl, fun k r hk => ?_⟩
      rw [OrdDict.get?_set] at hk
      split at hk
      · next heq =>
        cases hk
        exact heq
      · exact hcache k r hk
  unfold getRunner at h
  split at h
  · next found hfound =>
    split at h
    · exact hbuilt h
    · cases h
      exact ⟨hcache _ _ hfound, hcache⟩
  · exact hbuilt h

theorem Calls.setPc (h : Calls s) {x : Pc} (hx : x.Sequential) (u : T) :
    ((s.setPc t x).pc u).Sequential := by
  show (Function.update s.pc t x u).Sequential
  by_cases hu : u = t
  · rw [hu, Function.update_self]
    exact hx
  · rw [Function.update_of_ne hu]
    exact h.procs u

theorem calls_moves (hmoves : Moves s t s') (h : Calls s) : Calls s' := by
  have hproc := h.procs t
  cases hmoves with
  | call hout => exact ⟨h.cache, h.setPc (enter_sequential _)⟩
  | wakeUp hpc => rw [hpc] at hproc; exact ⟨h.cache, h.setPc hproc⟩
  | acquire hpc => rw [hpc] at hproc; exact ⟨h.cache, h.setPc hproc⟩
  | readClock hpc => rw [hpc] at hproc; exact ⟨h.cache, h.setPc hproc⟩
  | schedule hpc => rw [hpc] at hproc; exact ⟨h.cache, h.setPc hproc⟩
  | wake hpc => rw [hpc] at hproc; exact ⟨h.cache, h.setPc hproc⟩
  | getRunner hpc hrunner =>
    rw [hpc] at hproc
    obtain ⟨hscale, hcache⟩ := getRunner_spec h.cache hrunner
    exact ⟨hcache, h.setPc ⟨hproc, hscale⟩⟩
  | refused hpc =>
    rw [hpc] at hproc
    exact ⟨h.cache, h.setPc fun hneg => absurd hneg (Int.not_lt.mpr hproc.1)⟩
  | finish hpc => rw [hpc] at hproc; exact ⟨h.cache, h.setPc hproc.1⟩
  | settle hpc => rw [hpc] at hproc; exact ⟨h.cache, h.setPc (settle_sequential hproc)⟩

omit [DecidableEq T] in
theorem calls_initial (clock : ℚ) : Calls (initial clock : State T) := ⟨nofun, fun _ => trivial⟩

theorem calls_run {clock : ℚ} {events : List (Event T)}
    (hrun : run (initial clock) events = some s) : Calls s :=
  run_induction (fun _ _ _ h => ⟨h.cache, h.procs⟩)
    (fun _ _ _ hmoves h => calls_moves hmoves h) (calls_initial clock) hrun

/-- Whatever the other threads do, a call that returns gives what it gives alone, each attempt that
runs is one that it makes alone, and it runs with a runner for the scale factor of its call. -/
theorem calls_of_run {clock : ℚ} {events : List (Event T)}
    (hrun : run (initial clock) events = some s) (t : T) :
    (∀ c r, s.pc t = .returned c r → (Optimize.submitRemote c.attempt c.nRetry).result = .ok r) ∧
    ∀ c i runner, s.pc t = .running c i runner →
      i ∈ (Optimize.submitRemote c.attempt c.nRetry).log ∧
        runner.scaleFactor = c.scaleFactor.getD Optimize.defaultScaleFactor := by
  have hproc := (calls_run hrun).procs t
  refine ⟨fun c r hpc => ?_, fun c i runner hpc => ?_⟩
  · rw [hpc] at hproc
    exact hproc
  · rw [hpc] at hproc
    exact ⟨hproc.1.2, hproc.2⟩

/-- The error text of a call that has returned. -/
def returnedError : Pc → Option String
  | .returned _ r => some r.error
  | _ => none

theorem calls_of_run_twoCalls : ∃ s c r, run (initial 5) twoCalls = some s ∧
    s.pc true = .returned c r ∧ (Optimize.submitRemote c.attempt c.nRetry).result = .ok r := by
  have hreturned : (run (initial 5) twoCalls).map (fun s => returnedError (s.pc true)) =
      some (some "") := by decide +kernel
  obtain ⟨s, hrun, hs⟩ := Option.map_eq_some_iff.mp hreturned
  cases hpc : s.pc true with
  | returned c r => exact ⟨s, c, r, hrun, hpc, (calls_of_run hrun true).1 c r hpc⟩
  | _ => rw [hpc] at hs; cases hs

end

end DbPlanBench.Dispatch
