import DbPlanBench.Lib.Traced
import DbPlanBench.QueryGen.Step

/-!
# A run of query generation and its files

`run_query_generation` keeps its state in files: the configuration, an outcome for
each step, and the queries that have been accepted so far. A call that resumes reads
off them which step is next and what is still needed. A run is modelled with every
file it writes or removes, one at a time, so that it can be stopped between two of
them; a file is written at once.

The variables of a run are in its state next to the files. The text of the log and
the temporary directories of the steps are left out.
-/

namespace DbPlanBench.QueryGen

open Optimize (Kwargs)

/-! ## Files -/

/-- The counts of a step. -/
structure StepCounts where
  nRequested : Nat
  nGenerated : Nat
  nValid : Nat
  nInvalid : Nat
deriving DecidableEq

/-- An entry of the `metadata` of an outcome. -/
structure StepMeta where
  complexity : Int
  isValid : Bool
  error : Option String
deriving DecidableEq

/-- `outcome_{step}.json`. -/
structure Outcome where
  overall : StepCounts
  byComplexity : List (Int × StepCounts)
  generatedQueries : List String
  metadata : List StepMeta
deriving DecidableEq

/-- The counts of the result. -/
structure FinalCounts where
  nRequested : Int
  nGenerated : Nat
  nFinal : Nat
deriving DecidableEq

/-- `final_queries.json`, which is what a run returns. -/
structure FinalQueries where
  overall : FinalCounts
  byComplexity : List (Int × FinalCounts)
  queries : List String
  metadata : List Int
deriving DecidableEq

/-- The files of a run directory. -/
structure RunDir where
  config : Option Config
  outcomes : List (Nat × Outcome)
  final : Option FinalQueries
deriving DecidableEq

def emptyDir : RunDir := ⟨none, [], none⟩

/-- What a run does: it writes or removes a file, or starts a step. -/
inductive Event where
  | config
  | unlinkOutcome (k : Nat)
  | unlinkFinal
  | start (k : Nat)
  | outcome (k : Nat)
  | final (k : Nat)
deriving DecidableEq

/-- The files and variables of a run. -/
structure Session where
  dir : RunDir
  target : List (Int × Nat)
  step : Nat
  remaining : List (Int × Nat)
  queries : List String
  metadata : List Int
  seen : List String
  totalGenerated : Nat
  totalGeneratedByC : List (Int × Nat)
deriving DecidableEq

abbrev Run := Traced PyErr Event Session

/-! ## Before the first step -/

/-- `normalize_config`: the order of the dictionary of weights does not matter. -/
def normalizeConfig (c : Config) : Config :=
  { c with distribution := (weightsOf c.distribution).insertionSort fun a b => a.1 ≤ b.1 }

/-- `write_json(config_path, config)`. -/
def writeConfig (call : Call) (s : Session) : Run :=
  .write .config { s with dir := { s.dir with config := some call.config } }

/-- The configuration of the directory. -/
def checkConfig (call : Call) (s : Session) : Run :=
  match s.dir.config with
  | some existing =>
    if normalizeConfig existing ≠ normalizeConfig call.config then
      if call.resume then
        .fail (.valueError "Config mismatch for generate_queries and resume=True")
      else writeConfig call s
    else .done s
  | none => writeConfig call s

/-- `path.unlink` for an outcome. -/
def unlinkOutcome (k : Nat) (s : Session) : Run :=
  .write (.unlinkOutcome k)
    { s with dir := { s.dir with outcomes := OrdDict.erase s.dir.outcomes k } }

/-- `final_path.unlink()`. -/
def unlinkFinal (s : Session) : Run :=
  match s.dir.final with
  | some _ => .write .unlinkFinal { s with dir := { s.dir with final := none } }
  | none => .done s

/-- The outputs of earlier runs are removed, unless the call resumes. -/
def clear (call : Call) (s : Session) : Run :=
  if call.resume then .done s
  else
    let files := Slots.reorder call.listing (OrdDict.keys s.dir.outcomes)
    (Traced.forEach unlinkOutcome files s).andThen unlinkFinal

/-- `current_counts`. -/
def currentCounts (target : List (Int × Nat)) (metadata : List Int) : List (Int × Nat) :=
  Counter.tally (target.map fun p => (p.1, 0)) metadata

/-- `total_generated_by_c`. -/
def generatedByC (target : List (Int × Nat)) (outcomes : List (Nat × Outcome)) : List (Int × Nat) :=
  outcomes.foldl (fun totals o =>
      o.2.byComplexity.foldl (fun totals p => Counter.add totals p.1 p.2.nGenerated) totals)
    (target.map fun p => (p.1, 0))

/-- The variables of a run, from the files. -/
def load (call : Call) (dir : RunDir) : Except PyErr Session := do
  let existing := if call.resume then dir.final else none
  let queries := (existing.map (·.queries)).getD []
  let metadata := (existing.map (·.metadata)).getD []
  let target ← allocateTargets call.config.distribution call.config.nQueries
  let current := currentCounts target metadata
  if target.any (fun p => p.2 < Counter.count current p.1) then
    .error (.valueError "Existing final_queries exceeds target complexity distribution")
  else return {
    dir, target, queries, metadata
    step := (OrdDict.keys dir.outcomes).foldl max 0 + 1
    remaining := target.map fun p => (p.1, p.2 - Counter.count current p.1)
    seen := queries.dedup
    totalGenerated := (dir.outcomes.map (·.2.overall.nGenerated)).sum
    totalGeneratedByC := generatedByC target dir.outcomes }

/-- `sum(current_counts.values()) >= n_queries`. -/
def isComplete (call : Call) (s : Session) : Bool :=
  call.config.nQueries ≤ Counter.total (currentCounts s.target s.metadata)

/-- `sandbox_placeholders = fetch_kwargs.pop("sandbox_placeholders", {}) or {}`, a dictionary. -/
def placeholders (kwargs : Kwargs) : Except PyErr Kwargs :=
  match Optimize.kwarg kwargs "sandbox_placeholders" (.obj []) with
  | .obj fields => .ok fields
  | v => if v.truthy then .error (.valueError "sandbox_placeholders must be a dict") else .ok []

/-- The tables of the schema, from which prompts are made. -/
def fetchSchema (call : Call) : Except PyErr Kwargs := do
  call.client
  let scaleFactor := Json.int call.config.scaleFactor
  let kwargs ← Optimize.withScale "validate_kwargs['scale_factor']" scaleFactor call.validateKwargs
  let runnerKwargs ← Optimize.runnerDict "runner_kwargs must be a dict" kwargs
  let runnerKwargs ← Optimize.withScale "runner_kwargs['scale_factor']" scaleFactor runnerKwargs
  let fields ← placeholders kwargs
  let flag := Json.str (if call.config.includeSampleRows then "True" else "False")
  let fetchKwargs := OrdDict.set (Optimize.without ["runner_kwargs", "sandbox_placeholders"] kwargs)
    "sandbox_placeholders" (.obj (OrdDict.set fields "include_sample_rows" flag))
  let _ ← Optimize.callKwargs ["operation", "input_str", "data_folder"]
    [("runner_kwargs", .obj runnerKwargs), ("exec_local", .bool call.execLocal)] fetchKwargs
  let result ← call.schema
  if result = [] then .error (.runtimeError "Schema fetch failed: no result")
  else match Optimize.resultError result with
  | some err => .error (.runtimeError ("Schema fetch failed: " ++ call.str err))
  | none =>
    match Optimize.kwarg result "tables" .null with
    | .obj (table :: tables) => .ok (table :: tables)
    | _ => .error (.runtimeError "Schema fetch returned no tables")

/-! ## Steps -/

/-- `need_n`. -/
def needN (call : Call) (step remainingTotal : Nat) : Nat :=
  max 1 ⌊remainingTotal * min call.config.oversampleCap ((3 / 2 : ℚ) ^ (step - 1))⌋₊

/-- `generation_request_counts`. -/
def requestCounts (call : Call) (s : Session) : Except PyErr (List (Int × Nat)) :=
  allocateTargets (s.remaining.map fun p => (p.1, (p.2 : ℚ)))
    (needN call s.step (Counter.total s.remaining))

/-- The generated queries of a step and their validation. -/
def collect (call : Call) (s : Session) : Except PyErr (List Generated × Validation) := do
  let requests ← requestCounts call s
  let generated ← generateQueries call s.step requests
  let validation ← validateQueries call s.step s.seen generated
  return (generated, validation)

/-- The counts of a step for one complexity. -/
def countsFor (s : Session) (generated valid : List Generated) (c : Int) : StepCounts :=
  let nGenerated := generated.countP (·.complexity = c)
  let nValid := valid.countP (·.complexity = c)
  ⟨Counter.count s.remaining c, nGenerated, nValid, nGenerated - nValid⟩

/-- `outcome`. -/
def outcomeOf (s : Session) (generated : List Generated) (v : Validation) : Outcome :=
  let valid := validEntries v generated
  { overall := ⟨Counter.total s.remaining, generated.length, valid.length,
      generated.length - valid.length⟩
    byComplexity := (OrdDict.keys s.remaining).map fun c => (c, countsFor s generated valid c)
    generatedQueries := generated.map (·.query)
    metadata := generated.map fun g =>
      ⟨g.complexity, (recordedOf v g).isValid, (recordedOf v g).error⟩ }

/-- The outcome of a step is written, and its queries are counted. -/
def writeOutcome (generated : List Generated) (v : Validation) (s : Session) : Run :=
  let outcome := outcomeOf s generated v
  .write (.outcome s.step) { s with
    dir := { s.dir with outcomes := OrdDict.set s.dir.outcomes s.step outcome }
    seen := v.seen
    totalGenerated := s.totalGenerated + generated.length
    totalGeneratedByC := outcome.byComplexity.foldl
      (fun totals p => Counter.add totals p.1 p.2.nGenerated) s.totalGeneratedByC }

/-- `accepted_this_step`, and the queries with those that are accepted. -/
def acceptQueries (call : Call) (valid : List Generated) (s : Session) : Progress :=
  accept call s.step valid ⟨s.queries, s.metadata, s.remaining, 0⟩

/-- `final_summary` and the queries. -/
def finalQueries (call : Call) (s : Session) (p : Progress) : FinalQueries where
  overall := ⟨call.config.nQueries, s.totalGenerated, p.queries.length⟩
  byComplexity := ((OrdDict.keys s.target).insertionSort (· ≤ ·)).map fun c =>
    (c, ⟨Counter.count s.target c, Counter.count s.totalGeneratedByC c,
      Counter.count s.target c - Counter.count p.remaining c⟩)
  queries := p.queries
  metadata := p.metadata

/-- The accepted queries are written. -/
def writeFinal (call : Call) (s : Session) (p : Progress) : Run :=
  .write (.final s.step) { s with
    dir := { s.dir with final := some (finalQueries call s p) }
    queries := p.queries
    metadata := p.metadata
    remaining := p.remaining }

/-- The end of a step: without progress the last one is an error. -/
def endStep (call : Call) (p : Progress) (s : Session) : Run :=
  if p.accepted = 0 ∧ call.config.maxSteps ≤ s.step then
    .fail (.runtimeError "No progress in query generation; try increasing samples.")
  else .done { s with step := s.step + 1 }

/-- A step. -/
def runStep (call : Call) (s : Session) : Run :=
  (Traced.write (.start s.step) s).andThen fun s =>
    match collect call s with
    | .error e => .fail e
    | .ok (generated, v) =>
      (writeOutcome generated v s).andThen fun s =>
        let p := acceptQueries call (validEntries v generated) s
        (writeFinal call s p).andThen (endStep call p)

/-- The loop; `left` is `max_steps + 1 - step`, and 0 when the step is beyond `max_steps`. -/
def steps (call : Call) : Nat → Session → Run
  | 0, s =>
    if Counter.total s.remaining = 0 then .done s
    else .fail (.runtimeError
      "Exceeded maximum generation steps without meeting target distribution")
  | left + 1, s =>
    if Counter.total s.remaining = 0 then .done s
    else (runStep call s).andThen (steps call left)

/-- How many steps there are from a step on. -/
def stepsLeft (call : Call) (step : Nat) : Nat := (call.config.maxSteps + 1 - step).toNat

/-- The variables before anything is read. -/
def openDir (dir : RunDir) : Session := ⟨dir, [], 1, [], [], [], [], 0, []⟩

/-- `run_query_generation`. When it returns, the result is the file of the accepted queries. -/
def runQueryGeneration (call : Call) (dir : RunDir) : Run :=
  ((checkConfig call (openDir dir)).andThen (clear call)).andThen fun s =>
    match load call s.dir with
    | .error e => .fail e
    | .ok s =>
      if isComplete call s then .done s
      else match fetchSchema call with
        | .error e => .fail e
        | .ok _ => steps call (stepsLeft call s.step) s

end DbPlanBench.QueryGen
