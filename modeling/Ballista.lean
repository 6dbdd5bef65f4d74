import Ballista.Core.Types
import Ballista.Cluster.SlotDistribution
import Ballista.Cluster.Storage.Locks
import Ballista.Executor.AbortHandles
import Ballista.State.Backend
import Ballista.State.ExecutorManager
import Ballista.State.ConcurrentCalls
import Ballista.State.SingleCall
import Ballista.State.SlotsConservation
import Ballista.State.Progress
import Ballista.State.HeartbeatListener
import Ballista.State.Registration
import Ballista.State.SequentialCalls
import Ballista.SchedulerServer.Grpc
import Ballista.SchedulerServer.Runs
