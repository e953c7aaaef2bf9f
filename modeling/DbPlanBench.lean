import DbPlanBench.Compare.Frame
import DbPlanBench.Compare.Multiset
import DbPlanBench.Compare.Symmetric
import DbPlanBench.Dispatch.Progress
import DbPlanBench.Dispatch.Protocol
import DbPlanBench.Dispatch.Safety
import DbPlanBench.Engine.Children
import DbPlanBench.Engine.Compact
import DbPlanBench.Engine.Decode
import DbPlanBench.Engine.Denotation
import DbPlanBench.Engine.RoundTrip
import DbPlanBench.Engine.Succinct
import DbPlanBench.Json.Patch
import DbPlanBench.Json.Text
import DbPlanBench.Json.Value
import DbPlanBench.Lib.Agree
import DbPlanBench.Lib.Blocks
import DbPlanBench.Lib.Columns
import DbPlanBench.Lib.Counter
import DbPlanBench.Lib.CycleCheck
import DbPlanBench.Lib.Except
import DbPlanBench.Lib.FirstCome
import DbPlanBench.Lib.FirstPaths
import DbPlanBench.Lib.Gate
import DbPlanBench.Lib.GraphTree
import DbPlanBench.Lib.Logged
import DbPlanBench.Lib.NamingOrder
import DbPlanBench.Lib.OrdDict
import DbPlanBench.Lib.OrderMatching
import DbPlanBench.Lib.ParentTree
import DbPlanBench.Lib.Paths
import DbPlanBench.Lib.Postorder
import DbPlanBench.Lib.Quantile
import DbPlanBench.Lib.Ranked
import DbPlanBench.Lib.Renumber
import DbPlanBench.Lib.RoseTree
import DbPlanBench.Lib.Search
import DbPlanBench.Lib.Slots
import DbPlanBench.Lib.Smallest
import DbPlanBench.Lib.Template
import DbPlanBench.Lib.Traced
import DbPlanBench.Lib.Unfold
import DbPlanBench.Lib.WriteOnce
import DbPlanBench.LocalData.Progress
import DbPlanBench.LocalData.Protocol
import DbPlanBench.LocalData.Safety
import DbPlanBench.Optimize.Benchmark
import DbPlanBench.Optimize.BestPlans
import DbPlanBench.Optimize.DataFolder
import DbPlanBench.Optimize.Duplicates
import DbPlanBench.Optimize.Nondeterminism
import DbPlanBench.Optimize.Outcomes
import DbPlanBench.Optimize.Pipeline
import DbPlanBench.Optimize.PlanMetrics
import DbPlanBench.Optimize.Provenance
import DbPlanBench.Optimize.Results
import DbPlanBench.Optimize.Resumed
import DbPlanBench.Optimize.Retry
import DbPlanBench.Optimize.ScaleFactor
import DbPlanBench.Optimize.Sound
import DbPlanBench.Optimize.Statistics
import DbPlanBench.Optimize.Submit
import DbPlanBench.Optimize.TopK
import DbPlanBench.Optimize.Validate
import DbPlanBench.Optimize.Verdict
import DbPlanBench.Py.Err
import DbPlanBench.Py.Str
import DbPlanBench.QueryGen.Accounting
import DbPlanBench.QueryGen.Allocate
import DbPlanBench.QueryGen.Apportion
import DbPlanBench.QueryGen.Collected
import DbPlanBench.QueryGen.Exhausted
import DbPlanBench.QueryGen.Run
import DbPlanBench.QueryGen.Step
import DbPlanBench.Runner.Database
import DbPlanBench.Runner.Placeholders
import DbPlanBench.Sampling.Batch
import DbPlanBench.Sampling.Budget
import DbPlanBench.Sampling.Chain
import DbPlanBench.Sampling.Counts
import DbPlanBench.Sampling.Faults
import DbPlanBench.Sampling.FreshRun
import DbPlanBench.Sampling.Harvest
import DbPlanBench.Sampling.Interrupt
import DbPlanBench.Sampling.Invariant
import DbPlanBench.Sampling.Orchestrator
import DbPlanBench.Sampling.Reported
import DbPlanBench.Sampling.Response
import DbPlanBench.Sampling.Resume
import DbPlanBench.Sampling.Select
import DbPlanBench.Sampling.State
import DbPlanBench.Sampling.Step
import DbPlanBench.Sampling.TopUp
import DbPlanBench.Sampling.Verdicts
import DbPlanBench.Scale.Accounts
import DbPlanBench.Scale.Faithful
import DbPlanBench.Scale.Run
import DbPlanBench.Transfer.Accepted
import DbPlanBench.Transfer.Children
import DbPlanBench.Transfer.Compose
import DbPlanBench.Transfer.Conformance
import DbPlanBench.Transfer.Dangling
import DbPlanBench.Transfer.Document
import DbPlanBench.Transfer.Escapes
import DbPlanBench.Transfer.Executed
import DbPlanBench.Transfer.Identity
import DbPlanBench.Transfer.Isomorphism
import DbPlanBench.Transfer.KeyOrder
import DbPlanBench.Transfer.Matching
import DbPlanBench.Transfer.Number
import DbPlanBench.Transfer.Pairing
import DbPlanBench.Transfer.Patch
import DbPlanBench.Transfer.PatchOrder
import DbPlanBench.Transfer.Plan
import DbPlanBench.Transfer.Positions
import DbPlanBench.Transfer.Rebind
import DbPlanBench.Transfer.Refs
import DbPlanBench.Transfer.RefsOrder
import DbPlanBench.Transfer.Rewrite
import DbPlanBench.Transfer.Root
import DbPlanBench.Transfer.SameValue
import DbPlanBench.Transfer.Scan
import DbPlanBench.Transfer.ScansOrder
import DbPlanBench.Transfer.Shadow
import DbPlanBench.Transfer.Traversal
import DbPlanBench.Transfer.WalkOrder
