import CastlePlus.Autocorrect
import CastlePlus.Closing
import CastlePlus.CommandLine
import CastlePlus.ConnCap
import CastlePlus.Connectivity
import CastlePlus.ControlReplies
import CastlePlus.Delivery
import CastlePlus.Drain
import CastlePlus.EchoRuns
import CastlePlus.HeadPackets
import CastlePlus.HostAgreement
import CastlePlus.IdleSweep
import CastlePlus.LogPull
import CastlePlus.ManifestRoundTrip
import CastlePlus.OwnResponses
import CastlePlus.ProxyRuns
import CastlePlus.RateLimiter
import CastlePlus.RestartCalls
import CastlePlus.Router
import CastlePlus.RoutesFile
import CastlePlus.StrictNumbers
import CastlePlus.SupervisorBackoff
import CastlePlus.SupervisorBreaker
import CastlePlus.SupervisorHistory
import CastlePlus.SupervisorOutage
import CastlePlus.SupervisorStop
import CastlePlus.TaskQueue
import CastlePlus.TlsServing
