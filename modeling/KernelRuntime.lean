import KernelRuntime.Foundations.OrderedDict
import KernelRuntime.Foundations.Execution
import KernelRuntime.Foundations.Json
import KernelRuntime.Foundations.AppendStore
import KernelRuntime.Memory.MessageStore
import KernelRuntime.Memory.SequenceNumbers
import KernelRuntime.AgentLoop.ConfigLoader
import KernelRuntime.Api.Approval
import KernelRuntime.Governance.Paths
import KernelRuntime.Governance.PolicyEngine
import KernelRuntime.Foundations.Effects
import KernelRuntime.Tools.DelegateTask
import KernelRuntime.Mcp.Manager
import KernelRuntime.Mcp.TenantIsolation
import KernelRuntime.Mcp.Interference
import KernelRuntime.Mcp.Shutdown
import KernelRuntime.Mcp.StdioProtocol
import KernelRuntime.Mcp.Persistence
import KernelRuntime.AgentLoop.World
import KernelRuntime.AgentLoop.ToolWorker
import KernelRuntime.AgentLoop.Delivery
import KernelRuntime.AgentLoop.ResponseParser
import KernelRuntime.AgentLoop.LlmCaller
import KernelRuntime.AgentLoop.BrainWorker
import KernelRuntime.AgentLoop.BrainEffects
import KernelRuntime.AgentLoop.System
import KernelRuntime.AgentLoop.Redelivery
import KernelRuntime.AgentLoop.Continuation
import KernelRuntime.AgentLoop.PublishCommit
import KernelRuntime.AgentLoop.ApprovalFlag
import KernelRuntime.Foundations.Counting
import KernelRuntime.Queue.LocalBroker
import KernelRuntime.Queue.Conservation
import KernelRuntime.Queue.FanOut
import KernelRuntime.Memory.ContextWindow
import KernelRuntime.Tools.Router
import KernelRuntime.Tools.BashExecute
import KernelRuntime.Tools.SandboxLifetime
import KernelRuntime.Governance.PathAgreement
import KernelRuntime.Governance.SessionIsolation
import KernelRuntime.Foundations.FileTree
import KernelRuntime.Foundations.TextReplace
import KernelRuntime.Storage.Mount
import KernelRuntime.Storage.Operations
import KernelRuntime.Storage.Overlay
import KernelRuntime.Storage.ChangeStatus
import KernelRuntime.Storage.Commit
import KernelRuntime.Storage.Restore
import KernelRuntime.Storage.Sessions
import KernelRuntime.Storage.Remount
import KernelRuntime.Storage.TokenFlow
import KernelRuntime.Foundations.LruCache
import KernelRuntime.Memory.SessionContext
import KernelRuntime.Memory.ContextPersistence
import KernelRuntime.AgentLoop.TaskView
import KernelRuntime.AgentLoop.TaskHome
import KernelRuntime.AgentLoop.Transcripts
import KernelRuntime.Security.Crypto
import KernelRuntime.Api.SessionConfig
import KernelRuntime.Api.GithubAuth
import KernelRuntime.Api.Workspaces
import KernelRuntime.Foundations.LastWriter
import KernelRuntime.Api.ContextWriters
import KernelRuntime.Api.Auth
import KernelRuntime.AgentLoop.TerminalEvent
import KernelRuntime.AgentLoop.Producers
import KernelRuntime.AgentLoop.IterationBound
import KernelRuntime.Governance.ContainerPaths
import KernelRuntime.Mcp.RestartBudget
import KernelRuntime.Resilience.CircuitBreaker
import KernelRuntime.Resilience.ProtectedCalls
import KernelRuntime.Resilience.Recovery
import KernelRuntime.Foundations.SortedSet
import KernelRuntime.Resilience.RateLimiter
import KernelRuntime.Resilience.SlidingWindow
import KernelRuntime.Resilience.LimiterAgreement
import KernelRuntime.Resilience.LimiterRaces
import KernelRuntime.Mcp.RateLimiter
import KernelRuntime.Mcp.ProxyCircuit
import KernelRuntime.Mcp.Validation
import KernelRuntime.Mcp.Hub
import KernelRuntime.Mcp.BuiltinTools
import KernelRuntime.Foundations.AsyncLock
import KernelRuntime.Tools.Multiplexer
import KernelRuntime.AgentLoop.McpArguments
import KernelRuntime.Foundations.KeyedFold
import KernelRuntime.AgentLoop.StreamAssembly
import KernelRuntime.Queue.Attempts
import KernelRuntime.Governance.TenantPolicy
import KernelRuntime.Tools.DelegationBound
import KernelRuntime.AgentLoop.ModelChoice
import KernelRuntime.Billing.UsageTracker
import KernelRuntime.AgentLoop.QuotaCheck
import KernelRuntime.Api.Settings
import KernelRuntime.Memory.MessageHandler
import KernelRuntime.Memory.Checkpoint
import KernelRuntime.Mcp.ToolRetry
import KernelRuntime.Foundations.JsonStrings
import KernelRuntime.Mcp.Sanitizer
import KernelRuntime.Mcp.DefinitionChecks
import KernelRuntime.Mcp.StdioAdapter
import KernelRuntime.Mcp.StartUp
import KernelRuntime.Foundations.Utf8
import KernelRuntime.Foundations.LineStream
import KernelRuntime.Mcp.LineReader
import KernelRuntime.Foundations.Base64
import KernelRuntime.Foundations.JsonEncoder
import KernelRuntime.Api.SignedState
import KernelRuntime.Foundations.DirectoryWalk
import KernelRuntime.Governance.PurePaths
import KernelRuntime.Api.Uploads
import KernelRuntime.Api.WorkspaceRoots
import KernelRuntime.Api.WorkspaceRecords
import KernelRuntime.Api.SessionFork
import KernelRuntime.Foundations.TextSplit
import KernelRuntime.Foundations.Trim
import KernelRuntime.Tools.ApiTest
import KernelRuntime.Foundations.ShellLexer
import KernelRuntime.Foundations.ShellQuoting
import KernelRuntime.Foundations.ShellWords
import KernelRuntime.Foundations.ShellShape
import KernelRuntime.Foundations.Base64Standard
import KernelRuntime.Tools.JobManifest
import KernelRuntime.Tools.DatabaseQuery
import KernelRuntime.Tools.GitTools
import KernelRuntime.Tools.ShellCommands
import KernelRuntime.Tools.ShellArguments
import KernelRuntime.Tools.KubernetesWait
import KernelRuntime.Storage.PathKeys
import KernelRuntime.Foundations.CQuoting
import KernelRuntime.Storage.TreeListing
import KernelRuntime.Storage.Containment
import KernelRuntime.Foundations.FileOffsets
import KernelRuntime.Storage.StateRaces
import KernelRuntime.Tools.ShellContent
import KernelRuntime.Resilience.BreakerMetrics
import KernelRuntime.Foundations.TextLines
import KernelRuntime.Tools.GitRead
import KernelRuntime.Tools.CodeReview
import KernelRuntime.Foundations.RegexScan
import KernelRuntime.Memory.VectorStore
import KernelRuntime.Ui.RenderContent
import KernelRuntime.Ui.SpanMarkup
import KernelRuntime.Ui.HighlightCode
import KernelRuntime.Ui.WebSocketHook
import KernelRuntime.Ui.WebSocketMessages
import KernelRuntime.Storage.Diff
import KernelRuntime.Ui.ChatStream
import KernelRuntime.Api.Identity
import KernelRuntime.Api.FileServing
import KernelRuntime.Api.Folders
import KernelRuntime.Api.SessionRoutes
import KernelRuntime.Api.TenantViews
