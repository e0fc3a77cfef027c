import Truyn.Ledger.Lifecycle
import Truyn.Admission.Fleet
import Truyn.Relay.Stream
import Truyn.Relay.Queues
import Truyn.Ledger.Agreement
import Truyn.Ledger.OutboxAcks
import Truyn.Paid.ExecutedOnce
import Truyn.Offers.Admitted
import Truyn.Grants.PaidAdmission
import Truyn.Trust.GraphOrder
import Truyn.Trust.ActiveSet
import Truyn.Trust.TransparencyFile
import Truyn.A2a.Drain
import Truyn.Discovery.Converges
import Truyn.Transport.OneDispatch
import Truyn.Store.Exclusive
import Truyn.Registry.Capacity
import Truyn.Context.Entitled
import Truyn.Context.Quorum
import Truyn.Provider.Fence
import Truyn.Provider.Settlement
import Truyn.Registry.Replay
import Truyn.Witness.Lookup
import Truyn.Discovery.Walk
import Truyn.Routing.Optimal
import Truyn.Protocol.Strict
import Truyn.Protocol.Polling
import Truyn.Paid.RecoveredOnce
import Truyn.Rpc.Scheduler
import Truyn.Admission.BoundedQueue
import Truyn.Session.Hello
import Truyn.Discovery.Responsible
import Truyn.Replication.Put
import Truyn.Runtime.Persist
import Truyn.Runtime.WakeUp
import Truyn.Rpc.Clients
import Truyn.Replication.Get
import Truyn.Context.Client
import Truyn.Context.Waiting
import Truyn.Trust.Serving
import Truyn.Accepted.Failures
import Truyn.Mcp.Addresses
import Truyn.Trust.ReceiptV2
import Truyn.Context.SingleFlight
import Truyn.Context.ShardedRuns
import Truyn.A2a.Creation
import Truyn.Runtime.Credentials
import Truyn.Network.Stun
import Truyn.Sdk.LocalNode
