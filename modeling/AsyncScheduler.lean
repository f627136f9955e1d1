import AsyncScheduler.Properties.Absorbing
import AsyncScheduler.Properties.ApiKeys
import AsyncScheduler.Properties.Cancellation
import AsyncScheduler.Properties.Capacity
import AsyncScheduler.Properties.Compensating
import AsyncScheduler.Properties.Conservation
import AsyncScheduler.Properties.DagCompletion
import AsyncScheduler.Properties.DagConfluence
import AsyncScheduler.Properties.DagExecutions
import AsyncScheduler.Properties.DataFlow
import AsyncScheduler.Properties.Deduplication
import AsyncScheduler.Properties.Grants
import AsyncScheduler.Properties.Isolation
import AsyncScheduler.Properties.KeyIsolation
import AsyncScheduler.Properties.LeaseSafety
import AsyncScheduler.Properties.LostLock
import AsyncScheduler.Properties.Membership
import AsyncScheduler.Properties.NodeTransitions
import AsyncScheduler.Properties.Occurrences
import AsyncScheduler.Properties.Overlap
import AsyncScheduler.Properties.PriorityOrder
import AsyncScheduler.Properties.Rebuild
import AsyncScheduler.Properties.Recovery
import AsyncScheduler.Properties.RecoveryInserts
import AsyncScheduler.Properties.Release
import AsyncScheduler.Properties.Retries
import AsyncScheduler.Properties.Routing
import AsyncScheduler.Properties.Startup
import AsyncScheduler.Properties.Survival
import AsyncScheduler.Properties.Truth
import AsyncScheduler.Properties.Views
import AsyncScheduler.Properties.WorkerPool
import AsyncScheduler.Properties.WriteReport
import AsyncScheduler.Properties.Youth
