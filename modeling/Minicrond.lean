import Minicrond.Alerts.DropRing
import Minicrond.Api.LogStream
import Minicrond.Api.MetricsShare
import Minicrond.Api.ReadAccounting
import Minicrond.Api.RunList
import Minicrond.Cli.Crontab
import Minicrond.Cli.Init
import Minicrond.Config.RoundTrip
import Minicrond.Daemon.Retention
import Minicrond.Executor.Announcements
import Minicrond.Executor.DrainSleep
import Minicrond.Executor.LagTokens
import Minicrond.Executor.PumpEnd
import Minicrond.Executor.QueueCapacity
import Minicrond.Executor.QueueStarts
import Minicrond.Executor.ScheduledLaunch
import Minicrond.Executor.Shutdown
import Minicrond.Executor.TrustedPath
import Minicrond.Logs.CaptureLoss
import Minicrond.Logs.Codec
import Minicrond.Logs.Faultless
import Minicrond.Logs.FrameSync
import Minicrond.Logs.PruneOldest
import Minicrond.Logs.RunLocks
import Minicrond.Logs.SyncTimer
import Minicrond.Scheduler.LatestFire
import Minicrond.Scheduler.LoopCoverage
import Minicrond.Scheduler.Restart
import Minicrond.Store.AlertReferences
import Minicrond.Store.Idempotency
import Minicrond.Supervisor.Budget
import Minicrond.Supervisor.Hold
import Minicrond.Supervisor.Persistence
import Minicrond.Web.Ansi
import Minicrond.Web.Argv
import Minicrond.Web.Preview
import Minicrond.Web.TomlMeaning
