import Mathlib.Logic.Function.Basic
import DbPlanBench.Lib.WriteOnce
import DbPlanBench.Optimize.Results

/-!
# Data for local runs

`ensure_local_data` generates the data of a dataset at a scale factor when its folder is
not there. Any number of processes may call it at the same time, and may die while they
do. They share the data directory and the lock files in it. A process generates into a
temporary directory that no other process looks at, and then moves what is in it to the
data folder in one step.

A run is a list of actions, each by one process, in any order: all interleavings. What
DuckDB and the archive of the Join Order Benchmark contain is a parameter, and so is
whether there are locks at all (`fcntl` may be missing).

* `generateBenchmarkData` — the files of a dataset, in the order they are written.
* `step` — one action of one process, `run` — the actions of all.
-/

namespace DbPlanBench.LocalData

/-- The arguments of `ensure_local_data`. -/
structure Target where
  dataset : String
  scaleFactor : Int
deriving DecidableEq

/-! ## Paths -/

/-- The name of the data folder in `LOCAL_DATA_DIR`. -/
def basename (t : Target) : String :=
  "data_" ++ t.dataset ++
    if Optimize.lower t.dataset = "job" then "" else "_sf" ++ Int.repr t.scaleFactor

/-- `folder`. -/
def folder (dir : String) (t : Target) : String := dir ++ "/" ++ basename t

/-- The path that `_file_lock` locks. -/
def lockPath (dir : String) (t : Target) : String := dir ++ "/." ++ basename t ++ ".gen.lock"

/-- The datasets that can be generated. -/
def Supported (t : Target) : Prop := t.dataset ∈ ["tpch", "tpcds", "job"]

instance (t : Target) : Decidable (Supported t) := by
  unfold Supported
  infer_instance

/-! ## Generating -/

/-- A directory: its files by name. -/
abbrev Dir (α : Type) := List (String × α)

/-- What the data is made from: the tables of `dbgen` and `dsdgen` with their contents, the
queries of a benchmark, and the tables whose CSV is in the archive, as they are converted. -/
structure Sources (α : Type) where
  tables : String → Int → List String
  table : String → Int → String → α
  queries : String → List α
  jobTable : String → Option α

/-- The tables of `JOB_SCHEMA`. -/
def jobSchema : List String :=
  ["aka_name", "aka_title", "cast_info", "char_name", "comp_cast_type", "company_name",
    "company_type", "complete_cast", "info_type", "keyword", "kind_type", "link_type",
    "movie_companies", "movie_info", "movie_info_idx", "movie_keyword", "movie_link", "name",
    "person_info", "role_type", "title"]

section

variable {α : Type} (src : Sources α)

/-- `_generate_tpc`: the tables, then the queries. -/
def generateTpc (t : Target) : List (String × α) :=
  (src.tables t.dataset t.scaleFactor).map
      (fun name => (name ++ ".parquet", src.table t.dataset t.scaleFactor name)) ++
    (src.queries t.dataset).zipIdx.map fun q => ("query_" ++ Nat.repr (q.2 + 1) ++ ".sql", q.1)

/-- `_generate_job`: a table without a CSV is skipped. -/
def generateJob : List (String × α) :=
  jobSchema.filterMap fun name => (src.jobTable name).map fun table => (name ++ ".parquet", table)

/-- `generate_benchmark_data`: the files in the order they are written. -/
def generateBenchmarkData (t : Target) : Except PyErr (List (String × α)) :=
  if t.dataset ∈ ["tpch", "tpcds"] then .ok (generateTpc src t)
  else if t.dataset = "job" then .ok (generateJob src)
  else .error (.valueError ("Unknown benchmark type: " ++ t.dataset))

/-- A directory after some writes. -/
def written (tmp : Dir α) (files : List (String × α)) : Dir α :=
  files.foldl (fun d file => OrdDict.set d file.1 file.2) tmp

/-- The data of a dataset at a scale factor. -/
def dataOf (t : Target) : Dir α :=
  match generateBenchmarkData src t with
  | .ok files => written [] files
  | .error _ => []

end

/-! ## Processes -/

/-- Where a process is in `ensure_local_data`. -/
inductive Pc (α : Type) where
  | idle
  -- the folder was not there; the lock is next
  | waiting (t : Target)
  | locked (t : Target)
  -- what the temporary directory holds, and the files still to write
  | generating (t : Target) (tmp : Dir α) (files : List (String × α))
  -- still under the lock, with the outcome of the call
  | leaving (t : Target) (outcome : Except PyErr Unit)
  | returned (t : Target)
  | raised (t : Target) (e : PyErr)
  | crashed

/-- The end of a call. -/
def ended {α : Type} (t : Target) : Except PyErr Unit → Pc α
  | .ok () => .returned t
  | .error e => .raised t e

/-- The data directory, the locks and the processes. `generated` lists the folders whose data was
generated so far, `replaced` those that were moved into place. -/
structure State (P α : Type) where
  folders : String → Option (Dir α)
  holder : String → Option P
  pc : P → Pc α
  generated : List String
  replaced : List String

/-- No process has called yet. -/
def initial {P α : Type} (folders : String → Option (Dir α)) : State P α where
  folders
  holder := fun _ => none
  pc := fun _ => .idle
  generated := []
  replaced := []

/-- An action of a process. `fault` is an exception from a library or the system. -/
inductive Action where
  | call (t : Target)
  | acquire
  | recheck
  | write
  | place
  | release
  | fault (text : String)
  | crash

def unsupportedText (dataset : String) : String :=
  "Local data generation is supported for 'tpch', 'tpcds', 'job', not '" ++ dataset ++ "'."

def noFilesText (dataset : String) : String :=
  "Data generation produced no files for '" ++ dataset ++ "'."

def directoryNotEmpty : String := "[Errno 39] Directory not empty"

section

variable {P α : Type} [DecidableEq P]

/-- One process moves on, the others stay where they are. -/
def State.setPc (s : State P α) (p : P) (pc : Pc α) : State P α :=
  { s with pc := Function.update s.pc p pc }

variable (src : Sources α) (dir : String) (locking : Bool) (s : State P α) (p : P)

/-- `ensure_local_data` up to the lock. -/
def enter (t : Target) : Pc α :=
  if (s.folders (folder dir t)).isSome then .returned t
  else if ¬ Supported t then .raised t (.valueError (unsupportedText t.dataset))
  else .waiting t

/-- `fcntl.flock(lock_file, fcntl.LOCK_EX)`, which waits as long as another process has the lock. -/
def acquire (t : Target) : Option (State P α) :=
  if locking then
    if s.holder (lockPath dir t) = none then
      some { s.setPc p (.locked t) with
        holder := Function.update s.holder (lockPath dir t) (some p) }
    else none
  else some (s.setPc p (.locked t))

/-- The second look at the folder; `tempfile.mkdtemp` when it is still not there. -/
def recheck (t : Target) : Pc α :=
  if (s.folders (folder dir t)).isSome then .leaving t (.ok ())
  else match generateBenchmarkData src t with
    | .ok files => .generating t [] files
    | .error e => .leaving t (.error e)

/-- The data is generated: `os.replace`, which takes the place of an empty folder and fails on
others. -/
def place (t : Target) (tmp : Dir α) : State P α :=
  if tmp = [] then s.setPc p (.leaving t (.error (.runtimeError (noFilesText t.dataset))))
  else
    let s := { s with generated := s.generated ++ [folder dir t] }
    match s.folders (folder dir t) with
    | some (_ :: _) => s.setPc p (.leaving t (.error (.runtimeError directoryNotEmpty)))
    | _ => { s.setPc p (.leaving t (.ok ())) with
        folders := Function.update s.folders (folder dir t) (some tmp)
        replaced := s.replaced ++ [folder dir t] }

/-- The lock is given up, and the call returns or raises. -/
def release (t : Target) (outcome : Except PyErr Unit) : State P α :=
  { s.setPc p (ended t outcome) with
    holder := if locking then Function.update s.holder (lockPath dir t) none else s.holder }

/-- One action of one process, if it can be the next. -/
def step (action : Action) : Option (State P α) :=
  match action, s.pc p with
  | .call t, .idle | .call t, .returned _ | .call t, .raised .. => some (s.setPc p (enter dir s t))
  | .acquire, .waiting t => acquire dir locking s p t
  | .recheck, .locked t => some (s.setPc p (recheck src dir s t))
  | .write, .generating t tmp (file :: files) =>
    some (s.setPc p (.generating t (OrdDict.set tmp file.1 file.2) files))
  | .place, .generating t tmp [] => some (place dir s p t tmp)
  | .release, .leaving t outcome => some (release dir locking s p t outcome)
  -- without the lock the exception leaves the call, with it the lock is given up first
  | .fault text, .waiting t => some (s.setPc p (.raised t (.runtimeError text)))
  | .fault text, .locked t | .fault text, .generating t .. =>
    some (s.setPc p (.leaving t (.error (.runtimeError text))))
  -- the system gives up the locks of a process that dies
  | .crash, _ => some { s.setPc p .crashed with holder := LockTable.drop s.holder p }
  | _, _ => none

end

/-- Actions of any processes, one after the other. -/
def run {P α : Type} [DecidableEq P] (src : Sources α) (dir : String) (locking : Bool)
    (s : State P α) (actions : List (P × Action)) : Option (State P α) :=
  actions.foldlM (fun s a => step src dir locking s a.1 a.2) s

end DbPlanBench.LocalData
