import AckiNacki.Types
import AckiNacki.Types.Identifiers
import AckiNacki.BlockState
import AckiNacki.AttestationsTarget.Walk
import AckiNacki.AttestationsTarget.Soundness
import AckiNacki.AttestationsTarget.Speculative
import AckiNacki.AttestationsTarget.Service
import AckiNacki.AttestationsTarget.PrepareChain
import AckiNacki.Envelope
import AckiNacki.Producer.Aggregate
import AckiNacki.Producer.SpecialMessages
import AckiNacki.Producer.DispatchLiveness
import AckiNacki.Producer.Process
import AckiNacki.Producer.Lifecycle
import AckiNacki.Attestation
import AckiNacki.Config
import AckiNacki.BlockKeeperSystem
import AckiNacki.BlockKeeperSystem.Epoch
import AckiNacki.LoadBalancing.AggregatedLoad
import AckiNacki.Network.Metrics
import AckiNacki.ProxyManager
import AckiNacki.Node.Startup
import AckiNacki.GqlServer.Pagination
