import Slfs.Lib.Buffer
import Slfs.Lib.Chunks
import Slfs.Lib.Decimal
import Slfs.Lib.Transition
import Slfs.Ssbd.Packet
import Slfs.Ssbd.PersistentLog
import Slfs.Ssbd.Server
import Slfs.Ssbd.Block
import Slfs.DataFunction.StorageConf
import Slfs.DataFunction.Prepare
import Slfs.DataFunction.Read
import Slfs.DataFunction.BlockStore
import Slfs.DataFunction.System
import Slfs.DataFunction.Isolation
import Slfs.DataFunction.QuickPrepare
import Slfs.DataFunction.Provenance
import Slfs.Jsre.Meta
import Slfs.Lib.Table
import Slfs.DataFunction.Directory
import Slfs.DataFunction.Metadata
import Slfs.DataFunction.Perform
import Slfs.DataFunction.Stored
import Slfs.DataFunction.DirectoryMap
import Slfs.DataFunction.FileWrite
import Slfs.Proxy.Jobs
import Slfs.DataFunction.Caching
import Slfs.DataFunction.CacheTransparency
import Slfs.Client.PacketCreate
import Slfs.Proxy.Locks
import Slfs.Client.Rename
import Slfs.Proxy.Trigger
import Slfs.Jsre.RequestParser
import Slfs.Client.PacketBody
import Slfs.Proxy.OpenTable
import Slfs.Proxy.Assignment
import Slfs.Ssbd.Crash
import Slfs.DataFunction.Replication
import Slfs.DataFunction.Catalog
import Slfs.DataFunction.Volume
import Slfs.DataFunction.UniqueNames
import Slfs.DataFunction.FileSize
import Slfs.DataFunction.Chain
import Slfs.DataFunction.ErrorReply
import Slfs.Lib.Wire
import Slfs.Ssbd.Wire
import Slfs.DataFunction.SsbdBackend
import Slfs.Proxy.Wire
import Slfs.Lib.OrderedMap
import Slfs.Lib.Ring
import Slfs.Proxy.Ring
import Slfs.Client.Membership
import Slfs.Lib.Delimited
import Slfs.DataFunction.CacheTable
import Slfs.DataFunction.CacheHandover
import Slfs.Proxy.CacheTransfer
import Slfs.Ssbd.AgreedPrepare
import Slfs.DataFunction.UnlistedWrite
import Slfs.Lib.Blocks
import Slfs.DataFunction.Contents
import Slfs.DataFunction.Records
import Slfs.DataFunction.FileVolume
import Slfs.DataFunction.RenamedFile
import Slfs.DataFunction.Edits
import Slfs.DataFunction.Recreated
import Slfs.Ssbd.Rollback
import Slfs.DataFunction.DirectoryReads
import Slfs.DataFunction.ReplicaHosts
import Slfs.DataFunction.CacheFill
import Slfs.DataFunction.CacheIndex
import Slfs.DataFunction.FailedFill
import Slfs.Lib.LinkedList
import Slfs.DataFunction.LruCache
import Slfs.DataFunction.SsbdClient
import Slfs.DataFunction.Serial
import Slfs.DataFunction.LostUpdate
import Slfs.Proxy.LoadBalance
import Slfs.Proxy.LaunchPolicy
import Slfs.Proxy.QueueSize
import Slfs.Proxy.KeepAlive
import Slfs.Proxy.Zookeeper
import Slfs.Proxy.SocketWriter
import Slfs.Proxy.Topics
import Slfs.Client.ReturnCodes
import Slfs.Client.DirectoryKeys
import Slfs.Ssbd.Databases
import Slfs.Proxy.GlobalAverage
