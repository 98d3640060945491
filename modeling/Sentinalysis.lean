import Sentinalysis.Lib.Transition
import Sentinalysis.Lib.Fifo
import Sentinalysis.Lib.Lines
import Sentinalysis.Lib.Text
import Sentinalysis.Lib.Utf8
import Sentinalysis.Lib.Framing
import Sentinalysis.Lib.FileSystem
import Sentinalysis.Lib.Table
import Sentinalysis.Lib.Window
import Sentinalysis.Lib.Batch
import Sentinalysis.Lib.Float64
import Sentinalysis.Lib.Gcra
import Sentinalysis.Lib.Json
import Sentinalysis.Lib.RegexLanguage
import Sentinalysis.Error
import Sentinalysis.Db.ServiceRepo
import Sentinalysis.LogScanner.Source
import Sentinalysis.Db.LogQueryRepo
import Sentinalysis.Db.Prune
import Sentinalysis.Db.AppEventRepo
import Sentinalysis.Db.SystemMetricRepo
import Sentinalysis.Db.AgentRepo
import Sentinalysis.Db.Constraints
import Sentinalysis.LogScanner.Tailer
import Sentinalysis.LogScanner.Delivery
import Sentinalysis.LogScanner.FileTailer
import Sentinalysis.LogScanner.TailErrors
import Sentinalysis.LogScanner.Parser
import Sentinalysis.LogScanner.Filter
import Sentinalysis.LogScanner.Adoption
import Sentinalysis.LogScanner.Classifier
import Sentinalysis.LogScanner.Pipeline
import Sentinalysis.LogScanner.DbServiceResolver
import Sentinalysis.LogScanner.Scanner
import Sentinalysis.LogScanner.SourceDiscovery
import Sentinalysis.LogScanner.Startup
import Sentinalysis.LogScanner.Texts
import Sentinalysis.LogScanner.NoiseAttacks
import Sentinalysis.LogScanner.Effects
import Sentinalysis.LogScanner.Truncation
import Sentinalysis.LogScanner.Stalls
import Sentinalysis.LogScanner.Forgetting
import Sentinalysis.LogScanner.Rotation
import Sentinalysis.LogScanner.ScanEnd
import Sentinalysis.Hub.Proto
import Sentinalysis.Hub.Validate
import Sentinalysis.Hub.Auth
import Sentinalysis.Hub.AuthSoundness
import Sentinalysis.Hub.Revocation
import Sentinalysis.Hub.Ingest
import Sentinalysis.Hub.Metrics
import Sentinalysis.Hub.ServiceIdentity
import Sentinalysis.Hub.ServiceRace
import Sentinalysis.Hub.Linked
import Sentinalysis.Hub.Grpc
import Sentinalysis.Hub.Retention
import Sentinalysis.Hub.KeysCli
import Sentinalysis.Hub.Events
import Sentinalysis.Hub.PostEvents
import Sentinalysis.Hub.EventAccounting
import Sentinalysis.Hub.Identity
import Sentinalysis.Hub.RateLimits
import Sentinalysis.Hub.Quotas
import Sentinalysis.Hub.Stored
import Sentinalysis.Hub.RunHub
import Sentinalysis.Hub.Serving
import Sentinalysis.Agent.GrpcSink
import Sentinalysis.Agent.Logs
import Sentinalysis.Agent.Loop
import Sentinalysis.Agent.Conservation
import Sentinalysis.Agent.Responsive
import Sentinalysis.Agent.RequestSize
import Sentinalysis.Agent.DockerStart
import Sentinalysis.Agent.DockerWatch
import Sentinalysis.Agent.DockerTail
import Sentinalysis.Agent.Parity
import Sentinalysis.Agent.Sinks
import Sentinalysis.Agent.Signals
import Sentinalysis.Daemon.Run
import Sentinalysis.Daemon.Shutdown
import Sentinalysis.Daemon.Process
import Sentinalysis.Tui.Viewing
import Sentinalysis.Tui.Navigation
import Sentinalysis.Tui.Ownership
import Sentinalysis.Agent.WireIdentity
import Sentinalysis.Agent.DockerConfig
import Sentinalysis.LogScanner.NoiseReference
import Sentinalysis.LogScanner.LoginAttempt
import Sentinalysis.LogScanner.SyslogTime
import Sentinalysis.LogScanner.NginxFields
import Sentinalysis.LogScanner.NginxFormat
import Sentinalysis.Agent.BoundedQueue
import Sentinalysis.Hub.CacheHistory
import Sentinalysis.Hub.KeyFormat
import Sentinalysis.LogScanner.ClassifierLaws
import Sentinalysis.Tui.Keys
import Sentinalysis.Hub.Timestamps
import Sentinalysis.Agent.ResponseTime
import Sentinalysis.LogScanner.Offsets
import Sentinalysis.Hub.ReadEvents
import Sentinalysis.Hub.Messages
import Sentinalysis.Tui.HostList
import Sentinalysis.LogScanner.VhostNames
import Sentinalysis.Lib.GroupBy
import Sentinalysis.Hub.Tables
import Sentinalysis.Hub.Charts
import Sentinalysis.Hub.Summary
import Sentinalysis.Hub.Servers
import Sentinalysis.Hub.Endpoints
import Sentinalysis.Hub.KeyLife
import Sentinalysis.Hub.RestAnswers
import Sentinalysis.Tui.SourcesPanel
import Sentinalysis.Lib.Pacing
import Sentinalysis.Agent.HubBudget
import Sentinalysis.Agent.StuckSink
import Sentinalysis.Lib.Sql
import Sentinalysis.Db.InsertStatement
import Sentinalysis.Web.KeyGate
import Sentinalysis.Daemon.Listing
