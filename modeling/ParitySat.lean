import ParitySat.Backend
import ParitySat.Backend.Native
import ParitySat.Backend.Scripted
import ParitySat.Clause
import ParitySat.CommandLine.Arguments
import ParitySat.CommandLine.Program
import ParitySat.Config
import ParitySat.Decision.Order
import ParitySat.Decision.Queue
import ParitySat.Dimacs
import ParitySat.Duration
import ParitySat.Engine.Analysis
import ParitySat.Engine.Budget
import ParitySat.Engine.Constraints
import ParitySat.Engine.Learning
import ParitySat.Engine.Options
import ParitySat.Engine.Propagation
import ParitySat.Engine.Random
import ParitySat.Engine.Search
import ParitySat.Engine.Solve
import ParitySat.Engine.State
import ParitySat.Engine.Store
import ParitySat.Engine.Trail
import ParitySat.Engine.Traversal
import ParitySat.Error
import ParitySat.Host.Solver
import ParitySat.Host.Table
import ParitySat.Host.Value
import ParitySat.HostLiteral
import ParitySat.Intake.Buffer
import ParitySat.Intake.Literals
import ParitySat.Literal
import ParitySat.Literal.Word
import ParitySat.Luby
import ParitySat.Luby.Word
import ParitySat.Main
import ParitySat.Numeral.Integer
import ParitySat.Numeral.Nearest
import ParitySat.Numeral.Real
import ParitySat.Parity
import ParitySat.Proofs.Backend.Native
import ParitySat.Proofs.Backend.Scripted
import ParitySat.Proofs.Checked.Analysis
import ParitySat.Proofs.Checked.Fault
import ParitySat.Proofs.Checked.Learning
import ParitySat.Proofs.Checked.Order
import ParitySat.Proofs.Checked.Propagation
import ParitySat.Proofs.Checked.Requests
import ParitySat.Proofs.Checked.Search
import ParitySat.Proofs.Clause
import ParitySat.Proofs.CommandLine.Program
import ParitySat.Proofs.Decision.Bookkeeping
import ParitySat.Proofs.Decision.Heap
import ParitySat.Proofs.Decision.Order
import ParitySat.Proofs.Decision.Queue
import ParitySat.Proofs.Decision.Ranking
import ParitySat.Proofs.Dimacs
import ParitySat.Proofs.Dimacs.Location
import ParitySat.Proofs.Dimacs.Reading
import ParitySat.Proofs.Dimacs.Rendering
import ParitySat.Proofs.Engine.Analysis
import ParitySat.Proofs.Engine.Assumptions
import ParitySat.Proofs.Engine.Backtracking
import ParitySat.Proofs.Engine.Branching
import ParitySat.Proofs.Engine.Consequences
import ParitySat.Proofs.Engine.Constraints
import ParitySat.Proofs.Engine.Derivation
import ParitySat.Proofs.Engine.Exhaustion
import ParitySat.Proofs.Engine.Explanation
import ParitySat.Proofs.Engine.Extension
import ParitySat.Proofs.Engine.Fixpoint
import ParitySat.Proofs.Engine.Forgetting
import ParitySat.Proofs.Engine.Grounding
import ParitySat.Proofs.Engine.Guidance
import ParitySat.Proofs.Engine.Implication
import ParitySat.Proofs.Engine.Independence
import ParitySat.Proofs.Engine.Inheritance
import ParitySat.Proofs.Engine.Instants
import ParitySat.Proofs.Engine.Learning
import ParitySat.Proofs.Engine.Limits
import ParitySat.Proofs.Engine.Maintenance
import ParitySat.Proofs.Engine.Moments
import ParitySat.Proofs.Engine.Network
import ParitySat.Proofs.Engine.Occurrences
import ParitySat.Proofs.Engine.Phases
import ParitySat.Proofs.Engine.Portfolio
import ParitySat.Proofs.Engine.Progress
import ParitySat.Proofs.Engine.Propagation
import ParitySat.Proofs.Engine.Quota
import ParitySat.Proofs.Engine.Reactions
import ParitySat.Proofs.Engine.Reduction
import ParitySat.Proofs.Engine.Redundancy
import ParitySat.Proofs.Engine.Registry
import ParitySat.Proofs.Engine.Representation
import ParitySat.Proofs.Engine.Retention
import ParitySat.Proofs.Engine.Runs
import ParitySat.Proofs.Engine.Search
import ParitySat.Proofs.Engine.Solve
import ParitySat.Proofs.Engine.Soundness
import ParitySat.Proofs.Engine.Stability
import ParitySat.Proofs.Engine.State
import ParitySat.Proofs.Engine.Store
import ParitySat.Proofs.Engine.Sweep
import ParitySat.Proofs.Engine.Termination
import ParitySat.Proofs.Engine.Trail
import ParitySat.Proofs.Engine.Upkeep
import ParitySat.Proofs.Engine.Watches
import ParitySat.Proofs.Host.Insertion
import ParitySat.Proofs.Intake.Buffer
import ParitySat.Proofs.Literal.Word
import ParitySat.Proofs.Luby
import ParitySat.Proofs.Luby.Recurrence
import ParitySat.Proofs.Luby.Word
import ParitySat.Proofs.Numeral.Integer
import ParitySat.Proofs.Numeral.Operations
import ParitySat.Proofs.Numeral.Rank
import ParitySat.Proofs.Numeral.Rounding
import ParitySat.Proofs.Parity
import ParitySat.Proofs.Parity.Normalization
import ParitySat.Proofs.Parity.Status
import ParitySat.Proofs.Session.Accounts
import ParitySat.Proofs.Session.Batches
import ParitySat.Proofs.Session.Call
import ParitySat.Proofs.Session.Emission
import ParitySat.Proofs.Session.Enumeration
import ParitySat.Proofs.Session.Operations
import ParitySat.Proofs.Session.Problem
import ParitySat.Proofs.Session.Readmission
import ParitySat.Proofs.Session.Rejection
import ParitySat.Proofs.Session.Script
import ParitySat.Proofs.Session.Traversal
import ParitySat.Proofs.Solution
import ParitySat.Proofs.Solution.Formats
import ParitySat.Proofs.Text.Blank
import ParitySat.Proofs.Text.Encoding
import ParitySat.Session
import ParitySat.Session.Enumeration
import ParitySat.Session.Problem
import ParitySat.Session.Traversal
import ParitySat.Solution
import ParitySat.Text.Blank
import ParitySat.Traverse
import ParitySat.Truth
import ParitySat.Verdict
