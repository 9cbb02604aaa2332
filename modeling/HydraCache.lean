import HydraCache.Backup.Restore
import HydraCache.Client.LockLeases
import HydraCache.Client.Mutexes
import HydraCache.Client.RateLimits
import HydraCache.Cluster.Admission
import HydraCache.Cluster.ConsistencyTokens
import HydraCache.Cluster.NearCache
import HydraCache.Cluster.Replacement
import HydraCache.Db.OutboxWorkers
import HydraCache.Grid.BatchInvalidation
import HydraCache.Grid.CausalConsistency
import HydraCache.Grid.Crdt
import HydraCache.Grid.Durability
import HydraCache.Grid.DurableScrub
import HydraCache.Grid.Hardening
import HydraCache.Grid.HintedHandoff
import HydraCache.Grid.RegionConvergence
import HydraCache.Grid.Residency
import HydraCache.Grid.Scrubber
import HydraCache.Grid.SessionHeartbeats
import HydraCache.Grid.SessionReads
import HydraCache.Grid.SessionToken
import HydraCache.Grid.TieredStore
import HydraCache.Hc2.Permits
import HydraCache.Hc2.Termination
import HydraCache.Local.BreakerBounds
import HydraCache.Local.LoadProbe
import HydraCache.Local.MemoryFootprint
import HydraCache.Local.Retention
import HydraCache.Local.TagCoverage
import HydraCache.Operator.Lease
import HydraCache.Raft.LeaveRace
import HydraCache.Raft.Recovery
import HydraCache.Raft.Reopen
import HydraCache.Redis.Serve
import HydraCache.Transport.HotRemote
import HydraCache.Transport.OwnerLoads
import HydraCache.Transport.Resume
import HydraCache.Transport.StaleFills
