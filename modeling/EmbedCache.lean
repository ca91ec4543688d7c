import EmbedCache.CommitSafety
import EmbedCache.TagTypes
import EmbedCache.UvmAccumulate
import EmbedCache.LayerGuarantees
import EmbedCache.Collection
import EmbedCache.StatisticalHeuristic
import EmbedCache.StlOwnWrites
import EmbedCache.StlStorage
import EmbedCache.OverflowPolicy
import EmbedCache.RedisUsage
import EmbedCache.RedisScan
import EmbedCache.LookupFlavours
import EmbedCache.TagWidths
import EmbedCache.TaskRanges
import EmbedCache.NumaShutdown
import EmbedCache.ExecuteN
import EmbedCache.Remapping
import EmbedCache.SharedRegistry
import EmbedCache.NumpyRows
import EmbedCache.FreeWays
import EmbedCache.BestCandidates
import EmbedCache.RocksTable
import EmbedCache.RowAddresses
import EmbedCache.NVLMemBlock
import EmbedCache.CustomFlows
import EmbedCache.FailedSync
