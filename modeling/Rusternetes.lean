import Rusternetes.WorkQueue.Drain
import Rusternetes.WorkQueue.Wakeup
import Rusternetes.Scheduler.Rejected
import Rusternetes.Authz.Escalation
import Rusternetes.NodeGraph.Access
import Rusternetes.Registry.Updates
import Rusternetes.Allocator.Failure
import Rusternetes.Allocator.Count
import Rusternetes.ServicePorts.Ownership
import Rusternetes.Storage.Pages
import Rusternetes.Storage.Status
import Rusternetes.Deployments.Recreate
import Rusternetes.GarbageCollector.Foreground
import Rusternetes.LeaderElection.Bookkeeping
import Rusternetes.NodeIpam.PodCidrs
import Rusternetes.Jobs.Once
import Rusternetes.Ssa.Union
import Rusternetes.Common.Pagination
import Rusternetes.CronJobs.Schedule
import Rusternetes.GarbageCollector.Background
import Rusternetes.Reflector.Mirror
import Rusternetes.ImageGc.Collector
import Rusternetes.Scheduler.Preemption
import Rusternetes.Volumes.AtomicWriter
import Rusternetes.Quantities.Quantity
