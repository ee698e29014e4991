import RedisZk.Cluster.Election
import RedisZk.Cluster.ZkSafety
import RedisZk.Cluster.Epochs
import RedisZk.Cluster.SlotClaims
import RedisZk.Dict.Scan
import RedisZk.Migrate.Safe
import RedisZk.Networking.ReplyOrder
import RedisZk.Networking.Forward
import RedisZk.Propagation.Brackets
import RedisZk.Aof.Lossless
import RedisZk.Rdb.RoundTrip
import RedisZk.Intset.Refine
import RedisZk.HyperLogLog.Untrusted
import RedisZk.Streams.Ids
import RedisZk.Streams.Trimmed
import RedisZk.Streams.AllOrNothing
import RedisZk.Zset.Queries
import RedisZk.Replication.Backlog
import RedisZk.Bitops.Bitop
import RedisZk.Hashes.Agree
import RedisZk.Cluster.SlotIndex
import RedisZk.Eviction.Victims
import RedisZk.Pubsub.Sessions
import RedisZk.Expires.Feed
import RedisZk.Aof.Flush
import RedisZk.Writes.Traces
import RedisZk.Sentinel.Sound
import RedisZk.Util.Quoting
import RedisZk.Ziplist.Repair
import RedisZk.Listpack.Navigate
