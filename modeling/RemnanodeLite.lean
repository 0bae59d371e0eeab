import RemnanodeLite.Xray.ExitCallback
import RemnanodeLite.Xray.Leases
import RemnanodeLite.Httpserver.Wakeups
import RemnanodeLite.Asn.RoundTrip
import RemnanodeLite.Nodeapi.Exact
import RemnanodeLite.Rnlctl.Confined
import RemnanodeLite.Rnlctl.Reopen
import RemnanodeLite.Node.Shutdown
import RemnanodeLite.Xray.ProcessGroup
import RemnanodeLite.Xray.UsableCore
import RemnanodeLite.Plugin.Fence
import RemnanodeLite.Rnlctl.Resume
import RemnanodeLite.Rnlctl.Compensation
import RemnanodeLite.Rnlctl.Account
import RemnanodeLite.Bodylimit.Middleware
import RemnanodeLite.Rnlctl.Payload
import RemnanodeLite.Rnlctl.Rewriting
import RemnanodeLite.Plugin.SourceAddress
import RemnanodeLite.Plugin.ReconcileOrder
import RemnanodeLite.Netadmin.Walk
import RemnanodeLite.Plugin.Reports
import RemnanodeLite.Xray.HashString
import RemnanodeLite.Plugin.Interchange
import RemnanodeLite.Nodehandler.Replacement
import RemnanodeLite.Xray.Download
import RemnanodeLite.Connections.Sockets
import RemnanodeLite.Plugin.Rollback
