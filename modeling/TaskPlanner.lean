import TaskPlanner.Batches
import TaskPlanner.Blake3
import TaskPlanner.BuildFile
import TaskPlanner.BuildFile.Decoding
import TaskPlanner.BuildFile.Planning
import TaskPlanner.Catalog
import TaskPlanner.CommandLine
import TaskPlanner.Dispatch
import TaskPlanner.Dispatch.Rehearsal
import TaskPlanner.Dispatch.Shell
import TaskPlanner.Execution
import TaskPlanner.Execution.Drain
import TaskPlanner.Execution.Summary
import TaskPlanner.Fingerprint
import TaskPlanner.Glob
import TaskPlanner.Glob.Expression
import TaskPlanner.Graph
import TaskPlanner.Inventory
import TaskPlanner.Invocation
import TaskPlanner.ItemSet
import TaskPlanner.LockTable
import TaskPlanner.LogLevel
import TaskPlanner.Main
import TaskPlanner.Node
import TaskPlanner.NodeState
import TaskPlanner.Plan
import TaskPlanner.Plan.Discovery
import TaskPlanner.Plan.Submission
import TaskPlanner.Plan.Survey
import TaskPlanner.PlanError
import TaskPlanner.Proofs.BuildFile.CommandLine
import TaskPlanner.Proofs.BuildFile.Coverage
import TaskPlanner.Proofs.BuildFile.DisplayNames
import TaskPlanner.Proofs.BuildFile.Resolution
import TaskPlanner.Proofs.BuildFile.Validity
import TaskPlanner.Proofs.Counting
import TaskPlanner.Proofs.Discovery.Accounts
import TaskPlanner.Proofs.Discovery.CycleReports
import TaskPlanner.Proofs.Discovery.Cycles
import TaskPlanner.Proofs.Discovery.Exploration
import TaskPlanner.Proofs.Discovery.Findings
import TaskPlanner.Proofs.Discovery.Growth
import TaskPlanner.Proofs.Discovery.Moves
import TaskPlanner.Proofs.Discovery.Oracles
import TaskPlanner.Proofs.Discovery.PostOrder
import TaskPlanner.Proofs.Discovery.Pursuit
import TaskPlanner.Proofs.Discovery.Reachability
import TaskPlanner.Proofs.Discovery.Stack
import TaskPlanner.Proofs.Discovery.Termination
import TaskPlanner.Proofs.Dispatch.Completion
import TaskPlanner.Proofs.Dispatch.Release
import TaskPlanner.Proofs.Dispatch.Rounds
import TaskPlanner.Proofs.Dispatch.Workers
import TaskPlanner.Proofs.Execution.Batches
import TaskPlanner.Proofs.Execution.Calls
import TaskPlanner.Proofs.Execution.Causes
import TaskPlanner.Proofs.Execution.Completions
import TaskPlanner.Proofs.Execution.Determinism
import TaskPlanner.Proofs.Execution.Finalizers
import TaskPlanner.Proofs.Execution.HandOut
import TaskPlanner.Proofs.Execution.Locking
import TaskPlanner.Proofs.Execution.Preference
import TaskPlanner.Proofs.Execution.Progress
import TaskPlanner.Proofs.Execution.Readiness
import TaskPlanner.Proofs.Execution.Retirement
import TaskPlanner.Proofs.Execution.Sequence
import TaskPlanner.Proofs.Execution.Settlement
import TaskPlanner.Proofs.Execution.Stopping
import TaskPlanner.Proofs.Execution.Success
import TaskPlanner.Proofs.Graph.Cycles
import TaskPlanner.Proofs.Graph.EffectiveGroups
import TaskPlanner.Proofs.Graph.LeastGroups
import TaskPlanner.Proofs.Graph.Linearization
import TaskPlanner.Proofs.Graph.Reachability
import TaskPlanner.Proofs.Graph.Urgency
import TaskPlanner.Proofs.Plan.Arrangement
import TaskPlanner.Proofs.Plan.Batching
import TaskPlanner.Proofs.Plan.Closing
import TaskPlanner.Proofs.Plan.CycleRejection
import TaskPlanner.Proofs.Plan.Deeds
import TaskPlanner.Proofs.Plan.Deletion
import TaskPlanner.Proofs.Plan.EarlyOrdering
import TaskPlanner.Proofs.Plan.Editing
import TaskPlanner.Proofs.Plan.Foresight
import TaskPlanner.Proofs.Plan.Gathering
import TaskPlanner.Proofs.Plan.Growth
import TaskPlanner.Proofs.Plan.Inheritance
import TaskPlanner.Proofs.Plan.Joining
import TaskPlanner.Proofs.Plan.Leftovers
import TaskPlanner.Proofs.Plan.Numbering
import TaskPlanner.Proofs.Plan.Operations
import TaskPlanner.Proofs.Plan.PulledForward
import TaskPlanner.Proofs.Plan.Renumbering
import TaskPlanner.Proofs.Plan.Repetition
import TaskPlanner.Proofs.Plan.Restriction
import TaskPlanner.Proofs.Plan.Resubmission
import TaskPlanner.Proofs.Plan.Retention
import TaskPlanner.Proofs.Plan.Seeding
import TaskPlanner.Proofs.Plan.SingleBatch
import TaskPlanner.Proofs.Plan.Submissions
import TaskPlanner.Proofs.Roster.Lookups
import TaskPlanner.Proofs.Roster.Registration
import TaskPlanner.Proofs.Schedule.Acyclicity
import TaskPlanner.Proofs.Schedule.Adjacency
import TaskPlanner.Proofs.Schedule.BatchOrder
import TaskPlanner.Proofs.Schedule.Constraints
import TaskPlanner.Proofs.Schedule.Leading
import TaskPlanner.Proofs.Schedule.Likeness
import TaskPlanner.Proofs.Schedule.Line
import TaskPlanner.Proofs.Schedule.LinearExtension
import TaskPlanner.Proofs.Schedule.MarkerPlaces
import TaskPlanner.Proofs.Schedule.Overtaking
import TaskPlanner.Proofs.Schedule.Prompt
import TaskPlanner.Proofs.Schedule.Renumbering
import TaskPlanner.Proofs.Schedule.WellFormed
import TaskPlanner.Proofs.Session.Chronicle
import TaskPlanner.Proofs.Session.Exclusion
import TaskPlanner.Proofs.Session.Prerequisites
import TaskPlanner.Proofs.Session.Progress
import TaskPlanner.Proofs.Session.Reruns
import TaskPlanner.Report
import TaskPlanner.Resolver
import TaskPlanner.Resolver.Rows
import TaskPlanner.Roster
import TaskPlanner.Schedule
import TaskPlanner.Schedule.Ordering
import TaskPlanner.Session
import TaskPlanner.Session.Dispatch
import TaskPlanner.Shell
import TaskPlanner.Shell.Arithmetic
import TaskPlanner.Shell.Builtin
import TaskPlanner.Shell.Command
import TaskPlanner.Shell.Condition
import TaskPlanner.Shell.Evaluation
import TaskPlanner.Shell.Expansion
import TaskPlanner.Shell.Number
import TaskPlanner.Shell.Output
import TaskPlanner.Shell.Pattern
import TaskPlanner.Shell.Process
import TaskPlanner.Shell.Program
import TaskPlanner.Shell.Reader
import TaskPlanner.Shell.World
import TaskPlanner.TaskFilter
import TaskPlanner.Toml
import TaskPlanner.Toml.Scalar
import TaskPlanner.Toml.Text
import TaskPlanner.Toml.Value
import TaskPlanner.WorkItem
