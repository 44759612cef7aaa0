import Orangutan.Lib.Heap
import Orangutan.Lib.Entries
import Orangutan.Lib.Runs
import Orangutan.Lib.Pairing
import Orangutan.Lib.Splits
import Orangutan.Lib.Trials
import Orangutan.Core.Error
import Orangutan.Core.Str
import Orangutan.Core.Time
import Orangutan.Core.TurnId
import Orangutan.Core.Json
import Orangutan.Core.Message
import Orangutan.Async.Channel
import Orangutan.Async.TaskGroup
import Orangutan.Async.TaskGroupReports
import Orangutan.Async.TaskGroupContract
import Orangutan.Channel.Adapter
import Orangutan.Channel.Dispatcher
import Orangutan.Channel.Deliveries
import Orangutan.Channel.DispatcherContract
import Orangutan.Http.EventStream
import Orangutan.Http.SseParser
import Orangutan.Http.Client
import Orangutan.Http.Transfers
import Orangutan.Lib.Triples
import Orangutan.Io.Paths
import Orangutan.Io.System
import Orangutan.Io.FileMutation
import Orangutan.Io.FileReading
import Orangutan.Tool.FileChanges
import Orangutan.Io.Interference
import Orangutan.Io.SteadyReads
import Orangutan.Io.StagedWrites
import Orangutan.Tool.FileChangeContract
import Orangutan.Agent.FileReads
import Orangutan.Storage.Migrations
import Orangutan.Storage.MigrationRuns
import Orangutan.Storage.Pool
import Orangutan.Tool.Team
import Orangutan.Tool.PathLocks
import Orangutan.Provider.Types
import Orangutan.Provider.Execution
import Orangutan.Provider.Sink
import Orangutan.Provider.Retries
import Orangutan.Provider.AnthropicSse
import Orangutan.Provider.SinkContract
import Orangutan.Provider.OpenAiSse
import Orangutan.Agent.Inbox
import Orangutan.Agent.Scheduler
import Orangutan.Agent.BatchRuns
import Orangutan.Agent.SharedScheduler
import Orangutan.Agent.Context
import Orangutan.Agent.Exchanges
import Orangutan.Agent.Loop
import Orangutan.Agent.Iterations
import Orangutan.Agent.Coherence
import Orangutan.Agent.Rounds
import Orangutan.Agent.Budget
import Orangutan.Agent.Effects
import Orangutan.Bootstrap.State
import Orangutan.Bootstrap.Jobs
import Orangutan.Bootstrap.Scheduling
import Orangutan.Bootstrap.AgentTeam
import Orangutan.Bootstrap.TeamMessages
import Orangutan.Bootstrap.BackgroundTasks
import Orangutan.Bootstrap.Moves
import Orangutan.Bootstrap.Paths
import Orangutan.Bootstrap.Operations
import Orangutan.Bootstrap.Board
import Orangutan.Bootstrap.Agreement
import Orangutan.Bootstrap.TeamBoard
import Orangutan.Bootstrap.Reservation
import Orangutan.Bootstrap.Progress
import Orangutan.Bootstrap.AgentSession
import Orangutan.Bootstrap.Delivery
import Orangutan.Bootstrap.Inbox
import Orangutan.Bootstrap.MemberTurns
import Orangutan.Bootstrap.Mail
import Orangutan.Bootstrap.Exchange
import Orangutan.Lib.Table
import Orangutan.Permission.Approval
import Orangutan.Permission.ApprovalBroker
import Orangutan.Permission.Expiry
import Orangutan.Permission.RuleSet
import Orangutan.Tool.ApprovalResolution
import Orangutan.Tool.Registry
import Orangutan.Tool.Mediation
import Orangutan.Storage.SqlJson
import Orangutan.Storage.JsonText
import Orangutan.Storage.SessionRepository
import Orangutan.Memory.Session
import Orangutan.Memory.MessageText
import Orangutan.Storage.Appends
import Orangutan.Storage.SessionPages
import Orangutan.Memory.Commits
import Orangutan.Memory.History
import Orangutan.Agent.Handoff
import Orangutan.Bootstrap.Persistence
import Orangutan.Lib.Replacements
import Orangutan.Core.CodePoints
import Orangutan.Io.LineWindows
import Orangutan.Tool.FileRead
import Orangutan.Provider.AnthropicStreams
import Orangutan.Provider.AnthropicAgreement
import Orangutan.Core.ScalarValues
import Orangutan.Tool.FileEdits
import Orangutan.Io.FileLines
import Orangutan.Io.ReadResults
import Orangutan.Tool.FileWindows
import Orangutan.Bootstrap.StoredResults
import Orangutan.Bootstrap.ResultPages
import Orangutan.Bootstrap.RejectedCommands
import Orangutan.Bootstrap.ClosedService
import Orangutan.Bootstrap.Shutdown
import Orangutan.Lib.IndexedLists
import Orangutan.Storage.StatementCache
import Orangutan.Storage.StatementCacheContract
import Orangutan.Desktop.JsText
import Orangutan.Desktop.Schema
import Orangutan.Desktop.Fixtures
import Orangutan.Desktop.Model
import Orangutan.Desktop.Records
import Orangutan.Desktop.Updates
import Orangutan.Desktop.Transitions
import Orangutan.Desktop.StateMachine
import Orangutan.Agent.Summaries
import Orangutan.Bootstrap.Permissions
import Orangutan.Channel.Protocol
import Orangutan.Core.Calendar
import Orangutan.Core.Timestamps
import Orangutan.Lib.Globs
import Orangutan.Lib.Intervals
import Orangutan.Lib.Machines
import Orangutan.Permission.Globs
import Orangutan.Qq.Fences
import Orangutan.Qq.MarkdownBounds
import Orangutan.Qq.MarkdownParts
import Orangutan.Qq.MarkdownReply
import Orangutan.Telegram.Format
import Orangutan.Telegram.Host
import Orangutan.Lib.Frames
import Orangutan.Prompt.Identity
import Orangutan.Config.Expansion
import Orangutan.Config.Fields
import Orangutan.Config.Sections
import Orangutan.Config.Shapes
import Orangutan.Config.Strictness
import Orangutan.Provider.ProtocolRequest
import Orangutan.Provider.ProtocolWire
import Orangutan.Lib.Pages
import Orangutan.Lib.Transactions
import Orangutan.Core.TimeOrder
import Orangutan.Memory.Longterm
import Orangutan.Memory.LongtermStore
import Orangutan.Memory.LongtermNotes
import Orangutan.Memory.LongtermContract
import Orangutan.Memory.LongtermImport
import Orangutan.Memory.LongtermRuns
import Orangutan.Memory.LongtermIndex
import Orangutan.Memory.IndexPages
import Orangutan.Memory.Recall
import Orangutan.Memory.RecallRuns
