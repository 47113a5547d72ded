import PlanRunner.Cli.Args
import PlanRunner.Cli.Help
import PlanRunner.Cli.Program
import PlanRunner.Cli.Progress
import PlanRunner.Cli.Report
import PlanRunner.Cli.Usage
import PlanRunner.Config.Basic
import PlanRunner.Config.Decode
import PlanRunner.Config.Environment
import PlanRunner.Config.Load
import PlanRunner.Config.Validity
import PlanRunner.Context.Compose
import PlanRunner.Context.Facts
import PlanRunner.Context.Project
import PlanRunner.Engine.Basic
import PlanRunner.Engine.Slot
import PlanRunner.Error
import PlanRunner.Files.Rules
import PlanRunner.Http
import PlanRunner.Http.Address
import PlanRunner.Json.Basic
import PlanRunner.Json.Parser
import PlanRunner.Json.Printer
import PlanRunner.Layer.Basic
import PlanRunner.Layer.Builtin
import PlanRunner.Layer.Expression
import PlanRunner.Layer.Remote
import PlanRunner.Main
import PlanRunner.Number.Decimal
import PlanRunner.Plan.Basic
import PlanRunner.Plan.Builder
import PlanRunner.Prompt.Body
import PlanRunner.Prompt.Extraction
import PlanRunner.Prompt.Reply
import PlanRunner.Proofs.Cli.Layers
import PlanRunner.Proofs.Cli.Progress
import PlanRunner.Proofs.Config.SharedKey
import PlanRunner.Proofs.Context.Compose
import PlanRunner.Proofs.Context.Project
import PlanRunner.Proofs.Engine.Cancellation
import PlanRunner.Proofs.Engine.Chronicle
import PlanRunner.Proofs.Engine.Coherence
import PlanRunner.Proofs.Engine.DirectAnswer
import PlanRunner.Proofs.Engine.Execution
import PlanRunner.Proofs.Engine.Log
import PlanRunner.Proofs.Engine.Shutdown
import PlanRunner.Proofs.Engine.Steps
import PlanRunner.Proofs.Engine.Tidy
import PlanRunner.Proofs.Engine.Traffic
import PlanRunner.Proofs.Expression.Evaluation
import PlanRunner.Proofs.Expression.Syntax
import PlanRunner.Proofs.Json.Grammar
import PlanRunner.Proofs.Json.Reading
import PlanRunner.Proofs.Json.Sound
import PlanRunner.Proofs.Json.Token
import PlanRunner.Proofs.Number.Division
import PlanRunner.Proofs.Number.Finite
import PlanRunner.Proofs.Number.Nearest
import PlanRunner.Proofs.Number.Normal
import PlanRunner.Proofs.Number.Whole
import PlanRunner.Proofs.Plan.Closure
import PlanRunner.Proofs.Plan.Dependents
import PlanRunner.Proofs.Plan.Edit
import PlanRunner.Proofs.Plan.Format
import PlanRunner.Proofs.Plan.Frontier
import PlanRunner.Proofs.Plan.Graft
import PlanRunner.Proofs.Plan.Id
import PlanRunner.Proofs.Plan.Position
import PlanRunner.Proofs.Plan.Respelling
import PlanRunner.Proofs.Plan.Revision
import PlanRunner.Proofs.Plan.Stored
import PlanRunner.Proofs.Prompt.Bare
import PlanRunner.Proofs.Prompt.Fence
import PlanRunner.Proofs.Prompt.Scan
import PlanRunner.Proofs.Prompt.Span
import PlanRunner.Proofs.Provider.Factory
import PlanRunner.Proofs.Provider.Messages
import PlanRunner.Proofs.Run.Account
import PlanRunner.Proofs.Run.Atomicity
import PlanRunner.Proofs.Run.Budget
import PlanRunner.Proofs.Run.Coherence
import PlanRunner.Proofs.Run.Completion
import PlanRunner.Proofs.Run.Conduct
import PlanRunner.Proofs.Run.Deeds
import PlanRunner.Proofs.Run.Evaluation
import PlanRunner.Proofs.Run.Event
import PlanRunner.Proofs.Run.Frame
import PlanRunner.Proofs.Run.Grace
import PlanRunner.Proofs.Run.Interleaving
import PlanRunner.Proofs.Run.Ledger
import PlanRunner.Proofs.Run.Lockstep
import PlanRunner.Proofs.Run.Log
import PlanRunner.Proofs.Run.Operations
import PlanRunner.Proofs.Run.Progress
import PlanRunner.Proofs.Run.ResultText
import PlanRunner.Proofs.Run.Retry
import PlanRunner.Proofs.Run.Schedule
import PlanRunner.Proofs.Run.StartOrder
import PlanRunner.Proofs.Run.Summary
import PlanRunner.Proofs.Value.Integer
import PlanRunner.Proofs.Value.Resolve
import PlanRunner.Proofs.Value.RoundTrip
import PlanRunner.Provider.Chat
import PlanRunner.Provider.Client
import PlanRunner.Provider.Factory
import PlanRunner.Provider.Messages
import PlanRunner.Run.Basic
import PlanRunner.Run.Broadcast
import PlanRunner.Run.Drive
import PlanRunner.Run.History
import PlanRunner.Run.Ledger
import PlanRunner.Run.Retry
import PlanRunner.Run.Settings
import PlanRunner.Run.State
import PlanRunner.Run.Step
import PlanRunner.Run.Summary
import PlanRunner.Run.Walk
import PlanRunner.Task
import PlanRunner.Text.Blank
import PlanRunner.Text.Case
import PlanRunner.Text.Case.Table
import PlanRunner.Text.CodeSet
import PlanRunner.Text.Quoted
import PlanRunner.Text.Sha256
import PlanRunner.Text.Similarity
import PlanRunner.Toml.Parser
import PlanRunner.Toml.Printer
import PlanRunner.Toml.Table
import PlanRunner.Value.Basic
