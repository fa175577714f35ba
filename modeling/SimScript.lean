import SimScript.Call.Frame
import SimScript.Call.Stack
import SimScript.Check
import SimScript.Code.Instruction
import SimScript.Command.Array
import SimScript.Command.Basic
import SimScript.Command.Config
import SimScript.Command.Crew
import SimScript.Command.Extension
import SimScript.Command.Flow
import SimScript.Command.Format
import SimScript.Command.Math
import SimScript.Command.Network
import SimScript.Command.Object
import SimScript.Command.Script
import SimScript.Command.Table
import SimScript.Config.Loader
import SimScript.Config.Ref
import SimScript.Config.Tree
import SimScript.Decimal.Layout
import SimScript.Decimal.Reader
import SimScript.Decimal.Scaled
import SimScript.Decimal.Shortest
import SimScript.Diagnostics.Compilation
import SimScript.Diagnostics.Event
import SimScript.Diagnostics.Fault
import SimScript.Diagnostics.Heading
import SimScript.Diagnostics.Location
import SimScript.Diagnostics.Logger
import SimScript.Diagnostics.Severity
import SimScript.Document.Diagnostic
import SimScript.Document.Program
import SimScript.Document.Report
import SimScript.Document.Value
import SimScript.Execution.Answer
import SimScript.Execution.Basic
import SimScript.Execution.Loop
import SimScript.Execution.Run
import SimScript.Execution.Step
import SimScript.Extension.Buffer
import SimScript.Extension.Registry
import SimScript.Handle
import SimScript.Host.Basic
import SimScript.Host.FilePath
import SimScript.Host.Files
import SimScript.Host.Loading
import SimScript.Host.Settings
import SimScript.Json.Basic
import SimScript.Json.Parser
import SimScript.Json.Printer
import SimScript.Machine.Basic
import SimScript.Machine.Turn
import SimScript.Network.Sessions
import SimScript.Object.Table
import SimScript.Proofs.Command.Bridges
import SimScript.Proofs.Command.Control
import SimScript.Proofs.Command.Formatting
import SimScript.Proofs.Command.Obedience
import SimScript.Proofs.Command.Objects
import SimScript.Proofs.Command.Requests
import SimScript.Proofs.Command.Sanction
import SimScript.Proofs.Command.Table
import SimScript.Proofs.Command.Values
import SimScript.Proofs.Config.Ancestry
import SimScript.Proofs.Config.Loading
import SimScript.Proofs.Config.Lookup
import SimScript.Proofs.Config.Meaning
import SimScript.Proofs.Diagnostics.Logging
import SimScript.Proofs.Execution.Account
import SimScript.Proofs.Execution.Atomicity
import SimScript.Proofs.Execution.Bodies
import SimScript.Proofs.Execution.Breaking
import SimScript.Proofs.Execution.Calls
import SimScript.Proofs.Execution.Cases
import SimScript.Proofs.Execution.Counting
import SimScript.Proofs.Execution.Editing
import SimScript.Proofs.Execution.Ending
import SimScript.Proofs.Execution.Environment
import SimScript.Proofs.Execution.Exits
import SimScript.Proofs.Execution.Forgetting
import SimScript.Proofs.Execution.Frames
import SimScript.Proofs.Execution.Insertion
import SimScript.Proofs.Execution.Limits
import SimScript.Proofs.Execution.Loops
import SimScript.Proofs.Execution.Movement
import SimScript.Proofs.Execution.Moves
import SimScript.Proofs.Execution.Resources
import SimScript.Proofs.Execution.Searching
import SimScript.Proofs.Execution.Severity
import SimScript.Proofs.Execution.Step
import SimScript.Proofs.Execution.Verdict
import SimScript.Proofs.Extension.Exchange
import SimScript.Proofs.Extension.Output
import SimScript.Proofs.Extension.Registry
import SimScript.Proofs.Json.Ordering
import SimScript.Proofs.Machine.Abandonment
import SimScript.Proofs.Machine.Absorption
import SimScript.Proofs.Machine.Accounts
import SimScript.Proofs.Machine.Activations
import SimScript.Proofs.Machine.ArrayGraph
import SimScript.Proofs.Machine.Boarding
import SimScript.Proofs.Machine.Breakouts
import SimScript.Proofs.Machine.Budget
import SimScript.Proofs.Machine.Clock
import SimScript.Proofs.Machine.Conditions
import SimScript.Proofs.Machine.Connections
import SimScript.Proofs.Machine.Containment
import SimScript.Proofs.Machine.Counting
import SimScript.Proofs.Machine.Course
import SimScript.Proofs.Machine.Exits
import SimScript.Proofs.Machine.FrameDiscipline
import SimScript.Proofs.Machine.History
import SimScript.Proofs.Machine.Holdings
import SimScript.Proofs.Machine.Idleness
import SimScript.Proofs.Machine.Isolation
import SimScript.Proofs.Machine.LogLevels
import SimScript.Proofs.Machine.Operation
import SimScript.Proofs.Machine.Privacy
import SimScript.Proofs.Machine.Queue
import SimScript.Proofs.Machine.Reachable
import SimScript.Proofs.Machine.Reaping
import SimScript.Proofs.Machine.Recruitment
import SimScript.Proofs.Machine.Rounds
import SimScript.Proofs.Machine.ScopeOwnership
import SimScript.Proofs.Machine.Searches
import SimScript.Proofs.Machine.Session
import SimScript.Proofs.Machine.Suspension
import SimScript.Proofs.Machine.Tally
import SimScript.Proofs.Machine.Termination
import SimScript.Proofs.Machine.Turns
import SimScript.Proofs.Machine.Visiting
import SimScript.Proofs.Network.Sessions
import SimScript.Proofs.Network.Targets
import SimScript.Proofs.Object.Membership
import SimScript.Proofs.Object.Nearest
import SimScript.Proofs.Object.Seats
import SimScript.Proofs.Object.Table
import SimScript.Proofs.Plan.Arrays
import SimScript.Proofs.Plan.Basic
import SimScript.Proofs.Plan.Bridges
import SimScript.Proofs.Plan.Control
import SimScript.Proofs.Plan.Effect
import SimScript.Proofs.Plan.Objects
import SimScript.Proofs.Report.Grading
import SimScript.Proofs.Scalar.Counts
import SimScript.Proofs.Scalar.Order
import SimScript.Proofs.Scalar.Rounding
import SimScript.Proofs.Scalar.Steps
import SimScript.Proofs.Scalar.Sums
import SimScript.Proofs.Scope.Arena
import SimScript.Proofs.Scope.Assignment
import SimScript.Proofs.Scope.Chains
import SimScript.Proofs.Scope.Circles
import SimScript.Proofs.Scope.Isolation
import SimScript.Proofs.Scope.Ownership
import SimScript.Proofs.Scope.Slots
import SimScript.Proofs.Scope.Values
import SimScript.Proofs.Store.Contents
import SimScript.Proofs.Store.Copies
import SimScript.Proofs.Store.Depth
import SimScript.Proofs.Store.Equality
import SimScript.Proofs.Store.Graph
import SimScript.Proofs.Store.Growth
import SimScript.Proofs.Store.Literals
import SimScript.Proofs.Text.Utf8
import SimScript.Proofs.Value.Types
import SimScript.Proofs.Work.Basic
import SimScript.Report
import SimScript.Scalar.Arithmetic
import SimScript.Scalar.Parts
import SimScript.Scheduler
import SimScript.Scope
import SimScript.Settings.Application
import SimScript.Settings.Basic
import SimScript.Settings.Document
import SimScript.Store.Basic
import SimScript.Store.Build
import SimScript.Store.Copy
import SimScript.Store.Equality
import SimScript.Store.Reach
import SimScript.Store.Render
import SimScript.Text.Ascii
import SimScript.Text.Blank
import SimScript.Text.Utf8
import SimScript.Toml.Parser
import SimScript.Toml.Quoted
import SimScript.Toml.Table
import SimScript.Value.Basic
import SimScript.Value.Kind
import SimScript.Work
import SimScript.World
