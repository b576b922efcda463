import CounterTerrorist.Ipc.RingRun
import CounterTerrorist.Core.MerkleGrowth
import CounterTerrorist.Audit.Deltas
import CounterTerrorist.Audit.Restart
import CounterTerrorist.Audit.Fork
import CounterTerrorist.Audit.MerkleCoverage
import CounterTerrorist.Audit.Stall
import CounterTerrorist.Audit.Counter
import CounterTerrorist.Audit.Retention
import CounterTerrorist.Audit.Evidence
import CounterTerrorist.Mesh.Requests
import CounterTerrorist.Core.Threshold
import CounterTerrorist.Core.QueueAttempts
import CounterTerrorist.Core.BreakerRuns
import CounterTerrorist.Mesh.Broadcast
import CounterTerrorist.Mesh.QuorumVotes
import CounterTerrorist.Mesh.Approval
import CounterTerrorist.Mesh.Governance
import CounterTerrorist.Mesh.IdentityRotation
import CounterTerrorist.Identity.FixedWindow
import CounterTerrorist.Identity.SyncedCounts
import CounterTerrorist.Identity.SecretRotation
import CounterTerrorist.Logging.ExactlyOnce
import CounterTerrorist.Network.Webhook
import CounterTerrorist.Geoip.SearchTree
import CounterTerrorist.Geoip.Truncation
import CounterTerrorist.Geoip.Work
import CounterTerrorist.Web.ClientIp
import CounterTerrorist.Response.ThreatSaga
import CounterTerrorist.Analysis.CuratedIntel
import CounterTerrorist.Analysis.Ledger
import CounterTerrorist.Analysis.Scanner
import CounterTerrorist.Protection.Honeypot
import CounterTerrorist.Trustroot.Sealing
import CounterTerrorist.Sentinel.Egress
import CounterTerrorist.Sentinel.Redirect
import CounterTerrorist.Sentinel.Startup
import CounterTerrorist.Netcap.Pcapng
import CounterTerrorist.Ipc.Drain
import CounterTerrorist.Files.PathJail
import CounterTerrorist.Commands.ProfileDeployment
import CounterTerrorist.Commands.Deletion
import CounterTerrorist.Sidecar.Serialisation
import CounterTerrorist.Sidecar.Supervision
import CounterTerrorist.Sidecar.Framing
import CounterTerrorist.Sidecar.Integrity
import CounterTerrorist.Trustroot.Signatures
import CounterTerrorist.Netcap.Delivery
