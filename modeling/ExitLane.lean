import ExitLane.Auth.Budget
import ExitLane.Auth.Charge
import ExitLane.Auth.Session
import ExitLane.Peers.Allocation
import ExitLane.Peers.Crash
import ExitLane.Recovery.Failure
import ExitLane.Recovery.Initial
import ExitLane.Control.Lease
import ExitLane.Control.Writer
import ExitLane.Egress.Ownership
import ExitLane.Egress.DnsAnswer
import ExitLane.Management.FailClosed
import ExitLane.Vpn.Monitor
import ExitLane.Vpn.Selection
import ExitLane.Auth.Limiter
import ExitLane.Providers.Profiles
import ExitLane.Providers.FirstConnect
import ExitLane.Lifecycle.BackInService
import ExitLane.Backup.Legacy
import ExitLane.Backup.Leftover
import ExitLane.Security.Proxy
