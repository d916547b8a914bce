import Nockd.Api.CarriageReturns
import Nockd.Api.Delivery
import Nockd.Api.EventStream
import Nockd.Api.Failure
import Nockd.Api.LogStream
import Nockd.Api.Logs
import Nockd.Api.ManifestDeploy
import Nockd.Api.Rollback
import Nockd.Config.Ansi
import Nockd.Config.Names
import Nockd.Daemon.Audit
import Nockd.Daemon.Deadlines
import Nockd.Daemon.Deploys
import Nockd.Daemon.History
import Nockd.Daemon.IconTrip
import Nockd.Daemon.Lock
import Nockd.Daemon.Observations
import Nockd.Daemon.Orphans
import Nockd.Daemon.Pages
import Nockd.Daemon.Recall
import Nockd.Daemon.RunStates
import Nockd.Daemon.Serve
import Nockd.Daemon.Settling
import Nockd.Daemon.StatusCmd
import Nockd.Daemon.Trust
import Nockd.Plane.Isolation
import Nockd.Registry.DeployHistory
import Nockd.Registry.SqlReads
import Nockd.Store.Dedup
import Nockd.Supervisor.Isolation
import Nockd.Supervisor.Placeholders
import Nockd.Tui.Loop
import Nockd.Web.Rendering
