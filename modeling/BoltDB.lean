import BoltDB.Replication.Watermark
import BoltDB.Store.Isolation
import BoltDB.Store.Expiry
import BoltDB.Store.Startup
import BoltDB.Replication.Allocator
import BoltDB.Store.KeyLocks
import BoltDB.Server.ConditionalWrites
import BoltDB.Store.Blocking
import BoltDB.Replication.Continuation
import BoltDB.Cluster.MigrationSafety
import BoltDB.Server.SnapshotLock
import BoltDB.Store.EmptyCollections
import BoltDB.Store.BlockingZSets
import BoltDB.Replication.RdbDump
import BoltDB.Replication.LogCodec
import BoltDB.Cluster.FailQuorum
import BoltDB.Cluster.Coherence
import BoltDB.Cluster.Convergence
import BoltDB.Cluster.Routing
import BoltDB.Store.PubSub
import BoltDB.Sentinel.Evidence
import BoltDB.Sentinel.Promotion
import BoltDB.Replication.CommandLoop
import BoltDB.Store.ExpiryReplay
import BoltDB.Store.RenameNX
import BoltDB.Server.Sort
import BoltDB.Server.Connection
import BoltDB.Store.Bitmaps
import BoltDB.Store.Counters
import BoltDB.Store.Lcs
import BoltDB.Store.ListMoves
import BoltDB.Store.Streams
import BoltDB.Store.ZAddOptions
