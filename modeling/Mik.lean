import Mik.Runtime.RequestHandler
import Mik.Runtime.Settlement
import Mik.Runtime.TenantGate
import Mik.Runtime.TenantIsolation
import Mik.Lb.CircuitBreaker
import Mik.Lb.Proxy
import Mik.Lb.ConnectionCap
import Mik.Lb.PassiveDetection
import Mik.Lib.FileTree
import Mik.Lib.Index
import Mik.Storage.Validation
import Mik.Storage.Filesystem
import Mik.Storage.Consistency
import Mik.Storage.Memory
import Mik.Storage.Substitution
import Mik.Kv.Backend
import Mik.Kv.LostUpdate
import Mik.Gateway.OpenApi
import Mik.Kv.Substitution
import Mik.Gateway.References
import Mik.Daemon.History
import Mik.Lib.Hoare
import Mik.Daemon.Cron
import Mik.Daemon.Actions
import Mik.Daemon.Handlers
import Mik.Daemon.LiveEntries
import Mik.Daemon.Atomicity
import Mik.Daemon.AutoRestart
import Mik.Runtime.Embedded
import Mik.Lib.Protocol
import Mik.Daemon.CronHistory
import Mik.Reliability.Histories
import Mik.Reliability.Recovery
import Mik.Lib.Toml
import Mik.Runtime.EpochThread
import Mik.Config.Manifest
import Mik.Config.Validation
import Mik.Config.Builder
import Mik.Config.Loaders
import Mik.Config.Save
import Mik.Config.Add
import Mik.Gateway.Discovery
import Mik.Lib.Decoding
import Mik.Gateway.Routing
import Mik.Daemon.Stages
import Mik.Daemon.Processes
import Mik.Storage.DatabaseFile
import Mik.Storage.Reconcile
import Mik.Storage.Reopen
import Mik.Config.Pull
import Mik.Config.PullFiles
import Mik.Config.PullDamage
import Mik.Lib.SqlConnection
import Mik.Sql.Backend
import Mik.Lib.Handles
import Mik.Daemon.Clones
import Mik.Lib.Holders
import Mik.Runtime.PermitCap
import Mik.Lib.Fair
import Mik.Runtime.HostCalls
import Mik.Cluster.Workers
import Mik.Runtime.FilePath
import Mik.Lib.Symlinks
import Mik.Runtime.StaticFiles
import Mik.Lib.Encoding
import Mik.Lib.Escapes
import Mik.Runtime.RequestTarget
import Mik.Daemon.Logs
import Mik.Runtime.SchemaFiles
import Mik.Daemon.FailedOperations
import Mik.Lib.Inodes
import Mik.Runtime.AotCache
import Mik.Runtime.AotSharing
import Mik.Lib.Hysteresis
import Mik.Lb.RoundRobin
import Mik.Lb.Health
import Mik.Lib.HostName
import Mik.Reliability.AllowedHosts
import Mik.Runtime.WindowsPath
import Mik.Runtime.Sanitized
import Mik.Storage.CleanFailure
import Mik.Kv.Ttl
import Mik.Lib.Binary64
import Mik.Sql.JsonValues
import Mik.Lib.Uri
import Mik.Config.Registry
import Mik.Config.PullPlaces
import Mik.Config.PullTree
import Mik.Config.SyncGoal
import Mik.Lb.BreakerCells
import Mik.Lib.HeaderMap
import Mik.Runtime.HeaderText
import Mik.Lb.Forwarding
import Mik.Lib.HexText
import Mik.Runtime.TraceContext
import Mik.Runtime.TracePropagation
import Mik.Runtime.CallTargets
import Mik.Lib.AcceptEncoding
import Mik.Runtime.Compression
import Mik.Lib.Rewrite
import Mik.Runtime.ScriptSource
import Mik.Lib.Unfolding
import Mik.Runtime.JsValues
import Mik.Runtime.ScriptResults
import Mik.Lib.Debounce
import Mik.Daemon.Watch
import Mik.Lib.Overflow
import Mik.Daemon.Backoff
import Mik.Cluster.Ports
import Mik.Cache.Schema
import Mik.Reliability.Retry
import Mik.Config.OciReference
import Mik.Lib.Eviction
import Mik.Runtime.AotEviction
import Mik.Runtime.AotStored
import Mik.Lib.JsonPositions
import Mik.Gateway.Rewriting
import Mik.Reliability.RetryLoop
import Mik.Daemon.JobCounters
import Mik.Lib.Rely
import Mik.Daemon.Shutdown
import Mik.Runtime.Serving
import Mik.Daemon.LogRotation
import Mik.Daemon.Auth
import Mik.Lib.Linearizable
import Mik.Kv.Http
import Mik.Kv.Linearized
import Mik.Daemon.Dev
import Mik.Gateway.Handover
import Mik.Gateway.Documented
import Mik.Daemon.CronCall
import Mik.Storage.CrashRecovery
