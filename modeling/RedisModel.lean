import RedisModel.ZiplistRead
import RedisModel.ZiplistStale
import RedisModel.ZiplistTraversal
import RedisModel.ZiplistFind
import RedisModel.LexRange
import RedisModel.IntsetRun
import RedisModel.KeyspaceRun
import RedisModel.WatchRun
import RedisModel.ClusterVotePersistence
import RedisModel.ConfigEpochsRun
import RedisModel.SlotConvergence
import RedisModel.ReshardingRun
import RedisModel.ClusterRouting
import RedisModel.ClusterSlotsRun
import RedisModel.KeyExtraction
import RedisModel.BlockedClientsRun
import RedisModel.WaitReplies
import RedisModel.SlaveLists
import RedisModel.ZsetScores
import RedisModel.SplitArgs
import RedisModel.InlineRequests
import RedisModel.SentinelElectionRun
import RedisModel.PubSubRun
import RedisModel.SentinelHelloRun
import RedisModel.ZipmapRun
import RedisModel.BacklogRun
import RedisModel.ReplicationServer
import RedisModel.FullResync
import RedisModel.DumpPayload
import RedisModel.Multibulk
import RedisModel.Runs
import RedisModel.SkiplistRank
import RedisModel.StringMatchLanguage
import RedisModel.StringNumberWord
import RedisModel.ZsetZiplist
import RedisModel.ManualFailoverSpec
import RedisModel.ManualFailoverInvariant
import RedisModel.ManualFailoverRun
import RedisModel.FailureReports
import RedisModel.DictScan
import RedisModel.DictIterator
import RedisModel.Hyperloglog
import RedisModel.HyperloglogSparse
import RedisModel.HyperloglogDense
import RedisModel.HyperloglogRun
import RedisModel.Lanes
import RedisModel.StringObject
import RedisModel.Bitops
import RedisModel.BitopsCount
import RedisModel.BitopsRange
import RedisModel.Bitop
import RedisModel.BitopSpec
import RedisModel.StringRange
import RedisModel.StringRangeSpec
import RedisModel.KeyMoves
import RedisModel.ExpireTimes
import RedisModel.SetObject
import RedisModel.SetRandom
import RedisModel.AofBuffer
import RedisModel.AofBufferRun
import RedisModel.AofDescriptorsRun
import RedisModel.SentinelScriptsRun
import RedisModel.Counters
import RedisModel.CountersSpec
import RedisModel.EvictionPoolRun
import RedisModel.SentinelSelection
import RedisModel.SentinelReconfRun
import RedisModel.ClusterMigration
import RedisModel.ClusterMigrationSpec
import RedisModel.ScriptArguments
import RedisModel.DictRandomKeys
import RedisModel.DynamicString
import RedisModel.DynamicStringRun
import RedisModel.AofCheckRun
import RedisModel.AofRecovery
import RedisModel.ScriptCommandsRun
import RedisModel.SentinelTableRun
