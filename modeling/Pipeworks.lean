import Pipeworks.Action.Basic
import Pipeworks.Action.Instance
import Pipeworks.Bench
import Pipeworks.Cell
import Pipeworks.Config.Basic
import Pipeworks.Config.Document
import Pipeworks.Config.Environment
import Pipeworks.Config.Variables
import Pipeworks.Control
import Pipeworks.Duration
import Pipeworks.Error.Action
import Pipeworks.Error.Basic
import Pipeworks.Error.Config
import Pipeworks.Error.Info
import Pipeworks.Error.Jump
import Pipeworks.Fault
import Pipeworks.Form.Basic
import Pipeworks.Form.Bench
import Pipeworks.Form.Error
import Pipeworks.Form.Script
import Pipeworks.Host
import Pipeworks.Ingest
import Pipeworks.Ingest.Feed
import Pipeworks.Json.Basic
import Pipeworks.Json.Choices
import Pipeworks.Json.Decode
import Pipeworks.Json.Double
import Pipeworks.Json.Numeral
import Pipeworks.Json.Printer
import Pipeworks.Json.Reader
import Pipeworks.Json.Records
import Pipeworks.Json.RoundTrip
import Pipeworks.Json.Spelling
import Pipeworks.Json.Token
import Pipeworks.Json.Tokenized
import Pipeworks.Keyed
import Pipeworks.Keyed.Listing
import Pipeworks.Lifecycle.Amid
import Pipeworks.Lifecycle.Basic
import Pipeworks.Lifecycle.Bound
import Pipeworks.Lifecycle.Manager
import Pipeworks.Lifecycle.Recorded
import Pipeworks.Lifecycle.Renewal
import Pipeworks.Lifecycle.Usage
import Pipeworks.Marker
import Pipeworks.Metrics.Event
import Pipeworks.Metrics.Log
import Pipeworks.Metrics.Report
import Pipeworks.Metrics.Span
import Pipeworks.Naming
import Pipeworks.Phase
import Pipeworks.Pipeline.Binding
import Pipeworks.Pipeline.Builder
import Pipeworks.Pipeline.Calls
import Pipeworks.Pipeline.Career
import Pipeworks.Pipeline.Chronicle
import Pipeworks.Pipeline.Definition
import Pipeworks.Pipeline.Edits
import Pipeworks.Pipeline.Flow
import Pipeworks.Pipeline.Labels
import Pipeworks.Pipeline.Plan
import Pipeworks.Pipeline.Provider
import Pipeworks.Pipeline.Runs
import Pipeworks.Pipeline.Session
import Pipeworks.Pipeline.Setting
import Pipeworks.Pipeline.Shared
import Pipeworks.Pipeline.Standing
import Pipeworks.Pipeline.Step
import Pipeworks.Pipeline.Typed
import Pipeworks.Pipeline.Unpooled
import Pipeworks.Pool.Basic
import Pipeworks.Pool.Cache
import Pipeworks.Pool.Sharing
import Pipeworks.Pool.Stock
import Pipeworks.Pool.Store
import Pipeworks.Pool.Traffic
import Pipeworks.Proofs.Agreement
import Pipeworks.Proofs.Budget
import Pipeworks.Proofs.CleanInstances
import Pipeworks.Proofs.ClosedPool
import Pipeworks.Proofs.Declarations
import Pipeworks.Proofs.Delays
import Pipeworks.Proofs.Delivery
import Pipeworks.Proofs.EnvironmentTexts
import Pipeworks.Proofs.EventStream
import Pipeworks.Proofs.FailedSeals
import Pipeworks.Proofs.Freezing
import Pipeworks.Proofs.LabelTransfers
import Pipeworks.Proofs.PhaseAbort
import Pipeworks.Proofs.PhasedRun
import Pipeworks.Proofs.Polling
import Pipeworks.Proofs.PoolSafety
import Pipeworks.Proofs.PooledCalls
import Pipeworks.Proofs.Pooling
import Pipeworks.Proofs.Positions
import Pipeworks.Proofs.ProviderModes
import Pipeworks.Proofs.Regions
import Pipeworks.Proofs.Replay
import Pipeworks.Proofs.ReportContents
import Pipeworks.Proofs.RunLogs
import Pipeworks.Proofs.Sealing
import Pipeworks.Proofs.Serialization
import Pipeworks.Proofs.SessionEnd
import Pipeworks.Proofs.SessionNames
import Pipeworks.Proofs.SharedPools
import Pipeworks.Proofs.StartLabels
import Pipeworks.Proofs.StepNames
import Pipeworks.Proofs.StepReports
import Pipeworks.Proofs.TypeSoundness
import Pipeworks.Proofs.Wakeups
import Pipeworks.Registry
import Pipeworks.Run.Blur
import Pipeworks.Run.Drive
import Pipeworks.Run.Effects
import Pipeworks.Run.Executor
import Pipeworks.Run.History
import Pipeworks.Run.Interpreter
import Pipeworks.Run.Lead
import Pipeworks.Run.Naps
import Pipeworks.Run.Onward
import Pipeworks.Run.Times
import Pipeworks.Run.Twins
import Pipeworks.RunId
import Pipeworks.RunResult
import Pipeworks.Script.Action
import Pipeworks.Script.Basic
import Pipeworks.Script.DataPipeline
import Pipeworks.Script.Handler
import Pipeworks.Script.Instance
import Pipeworks.Script.Value
import Pipeworks.Testing.Action
import Pipeworks.Testing.Expectation
import Pipeworks.Testing.Lending
import Pipeworks.Testing.Probe
import Pipeworks.Testing.Recording
import Pipeworks.Testing.Supply
import Pipeworks.Text.Blank
import Pipeworks.Text.Decimal
import Pipeworks.Text.Glyphless
import Pipeworks.Text.Quoted
import Pipeworks.Trail
import Pipeworks.View.Bench
import Pipeworks.View.Error
import Pipeworks.View.Pipeline
import Pipeworks.View.Run
