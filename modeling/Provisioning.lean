import Provisioning.Ops.EnqueueOnce
import Provisioning.Ops.Answerable
import Provisioning.Ops.ReadBackOrder
import Provisioning.Ops.Holding
import Provisioning.Ops.BlindCreate
import Provisioning.Ops.DeltaReplay
import Provisioning.Ops.PreDispatch
import Provisioning.Ops.Refusals
import Provisioning.Ops.Representation
import Provisioning.Ops.StatusRetention
import Provisioning.Ops.KeyRetention
import Provisioning.Ops.ReadBackCapability
import Provisioning.Ops.NamingAttribute
import Provisioning.Ops.ReservedSlice
import Provisioning.Ops.StoresAgree
import Provisioning.Ops.Backoff
import Provisioning.Ops.FleetSlots
import Provisioning.Ops.Attribution
import Provisioning.Ops.LaneOrder
import Provisioning.Ops.CapChoice
import Provisioning.Ops.RetryBudget
import Provisioning.Ops.RateTokens
import Provisioning.Ops.LaneKeys
import Provisioning.Ops.Stop
import Provisioning.Ops.AdmitAgain
import Provisioning.Ops.LiveAttempts
import Provisioning.Ops.ReadBackMiss
import Provisioning.Ops.Settlement
import Provisioning.Ops.PartitionPass
import Provisioning.Ops.MaintainerRuns
import Provisioning.Config.LiveRegistration
import Provisioning.Config.ConfigCache
import Provisioning.Config.FailedEnsure
import Provisioning.Config.SingleFlight
import Provisioning.Config.ReadBackDelay
import Provisioning.Client.IdempotencyKey
import Provisioning.Client.Search
import Provisioning.Client.Paths
import Provisioning.Http.FilterPrinting
import Provisioning.Http.SearchStream
import Provisioning.Ops.Recovery
import Provisioning.Ops.BacklogBound
import Provisioning.Ops.PartitionCover
import Provisioning.Ops.PollHistory
import Provisioning.Http.OperationStatus
import Provisioning.Http.Exchange
import Provisioning.Http.Footprint
import Provisioning.Http.Admitted
import Provisioning.Client.WaitForOutcome
import Provisioning.Client.Mutations
import Provisioning.Client.Reads
import Provisioning.Client.Settled
import Provisioning.Ops.Achieved
import Provisioning.Ops.Rotation
import Provisioning.Client.Performed
import Provisioning.Config.Lifecycle
import Provisioning.Config.FileStore
import Provisioning.Config.TokenProvider
