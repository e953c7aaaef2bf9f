import DbPlanBench.Lib.Gate
import DbPlanBench.Optimize.Retry

/-!
# Dispatching operations to Modal

Many threads call `submit_run_operation` at once. Each of their attempts takes one of the
slots for sandboxes, asks the gate for a time to start at and sleeps until then, gets a
runner from the cache, runs, gives the slot back and then looks at the result, which may
lead to another attempt.

A run is a list of events: the clock goes on, or a thread does its next action. What an
attempt finds, the jitter of the gate and whether a runner can be built are arbitrary.
Times are exact.

* `step` — one event, `run` — any number of them.
-/

namespace DbPlanBench.Dispatch

open Optimize (Attempt EngineResult)

/-- `MAX_CONCURRENT_SANDBOXES`. -/
def maxConcurrentSandboxes : Nat := 100

/-- `RATE_LIMIT_PER_SEC`. -/
def rateLimitPerSec : ℚ := 4

/-- `WAIT_TIME`. -/
def waitTime : ℚ := 1 / rateLimitPerSec

/-- A call of `submit_run_operation`: its retries, the `runner_kwargs` it has, and what its attempts
find. -/
structure Call where
  nRetry : Int
  scaleFactor : Option Int
  rebuildImage : Bool
  attempt : Nat → Attempt

/-- `ModalRunner`. -/
structure Runner where
  scaleFactor : Int
deriving DecidableEq

/-- The scale factor of a call, or `DEFAULT_SCALE_FACTOR`. -/
def Call.scale (c : Call) : Int := c.scaleFactor.getD Optimize.defaultScaleFactor

/-- Where a thread is in `submit_run_operation`, with the number of its attempt. -/
inductive Pc where
  | idle
  -- `time.sleep` before another attempt
  | backoff (c : Call) (i : Nat) (wakes : ℚ)
  | waiting (c : Call) (i : Nat)
  -- in `_gate_modal_start`: before it reads the clock, before it has the lock, and asleep
  | entered (c : Call) (i : Nat)
  | asking (c : Call) (i : Nat) (now0 : ℚ)
  | sleeping (c : Call) (i : Nat) (scheduled : ℚ)
  | starting (c : Call) (i : Nat)
  | running (c : Call) (i : Nat) (runner : Runner)
  -- the slot is given back, the result is next
  | settling (c : Call) (i : Nat)
  | returned (c : Call) (r : EngineResult)
  | raised (c : Call) (e : PyErr)

/-- What the threads share. `slots` lists the times that the gate has given out, `starts` the times
that threads have started at, each with the one it was given. -/
structure State (T : Type) where
  clock : ℚ
  latest : ℚ
  free : Nat
  cache : List (Int × Runner)
  pc : T → Pc
  slots : List ℚ
  starts : List (ℚ × ℚ)

/-- Before any call. -/
def initial {T : Type} (clock : ℚ) : State T where
  clock
  latest := 0
  free := maxConcurrentSandboxes
  cache := []
  pc := fun _ => .idle
  slots := []
  starts := []

/-- An action of a thread. -/
inductive Action where
  | call (c : Call)
  | wakeUp
  | acquire
  | readClock
  | schedule (jitter : ℚ)
  | wake
  | getRunner (built : Except PyErr Unit)
  | finish
  | settle

/-- What can happen next. -/
inductive Event (T : Type) where
  | tick (d : ℚ)
  | act (t : T) (action : Action)

/-! ## Steps -/

/-- The beginning of `submit_run_operation`. -/
def enter (c : Call) : Pc :=
  if c.nRetry < 0 then .raised c (.valueError "n_retry must be non-negative") else .waiting c 0

/-- `_get_runner`: the runner and the cache. A runner is built if there is none for the scale factor,
or if that is asked for. -/
def getRunner (cache : List (Int × Runner)) (c : Call) (built : Except PyErr Unit) :
    Except PyErr (Runner × List (Int × Runner)) :=
  match OrdDict.get? cache c.scale with
  | some runner =>
    if c.rebuildImage then built.map fun _ => (⟨c.scale⟩, OrdDict.set cache c.scale ⟨c.scale⟩)
    else .ok (runner, cache)
  | none => built.map fun _ => (⟨c.scale⟩, OrdDict.set cache c.scale ⟨c.scale⟩)

/-- The end of an attempt: its result is returned, or there is another attempt after a while. -/
def settle (clock : ℚ) (c : Call) (i : Nat) : Pc :=
  if i < c.nRetry.toNat ∧ Optimize.triesAgain i (c.attempt i).result then
    .backoff c (i + 1) (clock + min (2 ^ (i + 1)) 10)
  else .returned c (Optimize.finalResult (c.attempt i).result)

section

variable {T : Type} [DecidableEq T]

/-- One thread moves on. -/
def State.setPc (s : State T) (t : T) (pc : Pc) : State T :=
  { s with pc := Function.update s.pc t pc }

/-- The part of `_gate_modal_start` under the lock. -/
def schedule (s : State T) (t : T) (c : Call) (i : Nat) (now0 jitter : ℚ) : State T :=
  let scheduled := max s.latest now0 + jitter
  { s.setPc t (.sleeping c i scheduled) with
    latest := scheduled + waitTime
    slots := s.slots ++ [scheduled] }

/-- The next action of one thread, if it can do this now. -/
def act (s : State T) (t : T) (action : Action) : Option (State T) :=
  match action, s.pc t with
  | .call c, .idle | .call c, .returned .. | .call c, .raised .. => some (s.setPc t (enter c))
  | .wakeUp, .backoff c i wakes => if wakes ≤ s.clock then some (s.setPc t (.waiting c i)) else none
  | .acquire, .waiting c i =>
    match s.free with
    | 0 => none
    | free + 1 => some { s.setPc t (.entered c i) with free }
  | .readClock, .entered c i => some (s.setPc t (.asking c i s.clock))
  | .schedule jitter, .asking c i now0 =>
    if 0 ≤ jitter ∧ jitter ≤ 1 / 5 * waitTime then some (schedule s t c i now0 jitter) else none
  | .wake, .sleeping c i scheduled =>
    if scheduled ≤ s.clock then
      some { s.setPc t (.starting c i) with starts := s.starts ++ [(scheduled, s.clock)] }
    else none
  | .getRunner built, .starting c i =>
    match getRunner s.cache c built with
    | .ok (runner, cache) => some { s.setPc t (.running c i runner) with cache }
    -- the exception leaves the call, and the slot with it
    | .error e => some { s.setPc t (.raised c e) with free := s.free + 1 }
  | .finish, .running c i _ => some { s.setPc t (.settling c i) with free := s.free + 1 }
  | .settle, .settling c i => some (s.setPc t (settle s.clock c i))
  | _, _ => none

/-- One event, if it can be the next. -/
def step (s : State T) : Event T → Option (State T)
  | .tick d => if 0 ≤ d then some { s with clock := s.clock + d } else none
  | .act t action => act s t action

/-- Some events, one after the other. -/
def run (s : State T) (events : List (Event T)) : Option (State T) := events.foldlM step s

end

end DbPlanBench.Dispatch
