import Todero.Lost
import Todero.Stream
import Todero.Settling
import Todero.Handshake
import Todero.Recovery
import Todero.WireCanonical
import Todero.OutOfSession
import Todero.FrameAuth
import Todero.Isolation
import Todero.Reaping
import Todero.Accumulation
import Todero.StoredTimers
import Todero.Losses
import Todero.Restart
import Todero.StaleProposals
import Todero.StoreEquivalence
import Todero.Versions
import Todero.DiskRaces
import Todero.TlsHandshake
import Todero.ServerGate
import Todero.TimerBounds
import Todero.Advertising
import Todero.IceChecklist
import Todero.Lib.Journal
import Todero.Refusals
import Todero.Datagrams
import Todero.Reactivation
import Todero.Requests
import Todero.Reassembly
import Todero.Counters
import Todero.KeepaliveMargin
import Todero.Nomination
import Todero.Deadlines
import Todero.MissWindow
import Todero.FailedWrites
import Todero.Disconnects
import Todero.ProbeFirst
import Todero.ReplayWindow
import Todero.FrameTags
import Todero.Amplification
import Todero.Certificates
import Todero.ExpiryScan
import Todero.SchemaVersions
import Todero.SingleNomination
import Todero.Stun
import Todero.ClientHandle
import Todero.TrustAnchors
import Todero.ChecklistOrder
import Todero.CheckOrder
import Todero.TurnManager
import Todero.Consent
import Todero.Discovery
import Todero.Fragments
import Todero.DecoderSafety
import Todero.ClientSpec
import Todero.Alone
import Todero.Speaking
import Todero.EndToEnd
import Todero.ClientGate
import Todero.ServerHandle
import Todero.EventTexts
import Todero.Registry
import Todero.SharedMemory
import Todero.SharedHistory
import Todero.Paths
import Todero.SilentClient
import Todero.SignedLink
import Todero.TurnLeases
import Todero.ServerTallies
import Todero.Retransmissions
import Todero.Batches
import Todero.StoreUses
import Todero.ClientTallies
