import GrowlerDB.Backup.Parking
import GrowlerDB.Backup.PromoteCold
import GrowlerDB.Backup.Refresh
import GrowlerDB.Connector.BucketHandover
import GrowlerDB.Connector.ClusterSearch
import GrowlerDB.Connector.ConnectorSet
import GrowlerDB.Connector.DeleteBroadcast
import GrowlerDB.Connector.GrowthReshard
import GrowlerDB.Connector.VariantExtractor
import GrowlerDB.ControlPlane.AtomicMutation
import GrowlerDB.ControlPlane.Cutover
import GrowlerDB.ControlPlane.Entitlement
import GrowlerDB.ControlPlane.Failover
import GrowlerDB.ControlPlane.PlacementOutcome
import GrowlerDB.ControlPlane.StagingSlot
import GrowlerDB.ControlPlane.TokenIndex
import GrowlerDB.Core.SkewRelief
import GrowlerDB.Engine.CutoverFence
import GrowlerDB.Engine.FailoverNode
import GrowlerDB.Engine.FlatMap
import GrowlerDB.Engine.HeavyReads
import GrowlerDB.Engine.HybridQuery
import GrowlerDB.Engine.IndexRoutes
import GrowlerDB.Engine.InlineHydration
import GrowlerDB.Engine.LoginThrottle
import GrowlerDB.Engine.OpenSearch.Meaning
import GrowlerDB.Engine.PartitionPruning
import GrowlerDB.Engine.PoolRouting
import GrowlerDB.Engine.PruneHints
import GrowlerDB.Engine.ReconcileSafe
import GrowlerDB.Engine.Scroll
import GrowlerDB.Engine.TenantScope
import GrowlerDB.Engine.ZoneMaps
import GrowlerDB.Index.Cidr
import GrowlerDB.Index.Compaction
import GrowlerDB.Index.OffsetPaging
import GrowlerDB.Index.RecordPruning
import GrowlerDB.Index.Reindex
import GrowlerDB.Index.Wildcard
