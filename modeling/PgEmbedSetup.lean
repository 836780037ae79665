import PgEmbedSetup.Library.Transition
import PgEmbedSetup.Library.UndoLog
import PgEmbedSetup.Library.Text
import PgEmbedSetup.Library.Utf8
import PgEmbedSetup.Library.LockFiles
import PgEmbedSetup.Library.PathWalk
import PgEmbedSetup.Library.FileTree
import PgEmbedSetup.Library.FirstMatch
import PgEmbedSetup.Library.Monitor
import PgEmbedSetup.Library.Outcome
import PgEmbedSetup.Library.Logged
import PgEmbedSetup.Library.Process
import PgEmbedSetup.Library.StateRun
import PgEmbedSetup.Library.Duration
import PgEmbedSetup.Library.SqlLexer
import PgEmbedSetup.Env.State
import PgEmbedSetup.Env.Transitions
import PgEmbedSetup.Env.ScopedEnv
import PgEmbedSetup.Env.Serialised
import PgEmbedSetup.Privileges
import PgEmbedSetup.Prepare.Orphan
import PgEmbedSetup.Prepare.Watcher
import PgEmbedSetup.Prepare.Password
import PgEmbedSetup.Prepare.Sweep
import PgEmbedSetup.Root.Effects
import PgEmbedSetup.Root.Safety
import PgEmbedSetup.Root.Installation
import PgEmbedSetup.Extensions.Layout
import PgEmbedSetup.Extensions.Grammar
import PgEmbedSetup.Extensions.Tree
import PgEmbedSetup.Extensions.Install
import PgEmbedSetup.Extensions.Write
import PgEmbedSetup.Extensions.Placement
import PgEmbedSetup.Extensions.Exactness
import PgEmbedSetup.Extensions.Containment
import PgEmbedSetup.Extensions.Replacement
import PgEmbedSetup.Extensions.OwnBytes
import PgEmbedSetup.Extensions.Acceptance
import PgEmbedSetup.Extensions.Limits
import PgEmbedSetup.Extensions.Selection
import PgEmbedSetup.Cluster.Shutdown
import PgEmbedSetup.Cluster.Cleanup
import PgEmbedSetup.Cluster.World
import PgEmbedSetup.Cluster.StopOnce
import PgEmbedSetup.Cluster.FilesKept
import PgEmbedSetup.Cluster.Signals
import PgEmbedSetup.Cluster.Statements
import PgEmbedSetup.Shared.Leaked
import PgEmbedSetup.Shared.HookThreads
import PgEmbedSetup.Templates.Ready
import PgEmbedSetup.Startup.ExtensionFree
import PgEmbedSetup.Startup.Resolvers
import PgEmbedSetup.Worker.Recovery
import PgEmbedSetup.Worker.Payload
import PgEmbedSetup.Cache.Complete
import PgEmbedSetup.Cache.Converge
import PgEmbedSetup.Acquire.Verified
import PgEmbedSetup.Acquire.Alone
import PgEmbedSetup.TestSupport.Hash
import PgEmbedSetup.Handover.Files
import PgEmbedSetup.Handover.Model
import PgEmbedSetup.Handover.Steps
import PgEmbedSetup.Handover.Claim
import PgEmbedSetup.Handover.Directories
import PgEmbedSetup.Handover.Finish
import PgEmbedSetup.Handover.Complete
import PgEmbedSetup.Handover.Exact
import PgEmbedSetup.Extensions.Version
import PgEmbedSetup.TestSupport.Retry
import PgEmbedSetup.Cluster.ProcessTree
import PgEmbedSetup.Startup.Versioned
import PgEmbedSetup.Worker.PrivilegeDrop
import PgEmbedSetup.Worker.Output
import PgEmbedSetup.Worker.Subprocess
import PgEmbedSetup.Worker.Main
import PgEmbedSetup.Prepare.Registry
import PgEmbedSetup.Env.Summary
import PgEmbedSetup.Bootstrap.Mode
import PgEmbedSetup.Bootstrap.Dispatch
import PgEmbedSetup.Observability
import PgEmbedSetup.Extensions.Http
import PgEmbedSetup.Cluster.Databases
import PgEmbedSetup.Cluster.DatabaseGuards
import PgEmbedSetup.Cluster.DatabaseRuns
import PgEmbedSetup.Extensions.Config
import PgEmbedSetup.Library.Tally
import PgEmbedSetup.TestSupport.Staging
import PgEmbedSetup.TestSupport.StagingCalls
import PgEmbedSetup.TestSupport.StagingFiles
import PgEmbedSetup.TestSupport.Staged
import PgEmbedSetup.Startup.Initdb
import PgEmbedSetup.Startup.InitdbEnds
import PgEmbedSetup.Handover.Accounts
