import MemClient.ByteCodec
import MemClient.EventRun
import MemClient.AssocCells
import MemClient.HostNetConversion
import MemClient.ProtocolBinary
import MemClient.RequestEncoding
import MemClient.RequestStream
import MemClient.DirectedRequests
import MemClient.SortedMap
import MemClient.ServerItem
import MemClient.ConsistentHashDistri
import MemClient.Md5
import MemClient.BlockHash
import MemClient.IncrementalMd5
import MemClient.DigestReads
import MemClient.UpdateReads
import MemClient.RingPoints
import MemClient.RingLabels
import MemClient.TcpClient
import MemClient.MemResult
import MemClient.MemcachedClient
import MemClient.Link
import MemClient.ReplyFraming
import MemClient.Demultiplexing
import MemClient.ClientSystem
import MemClient.RequestLifetime
import MemClient.RequestIds
import MemClient.ProtocolServer
import MemClient.HealthyServer
import MemClient.BinaryHeap
import MemClient.UnorderedMap
import MemClient.MemoDistri
import MemClient.DistributeAlgorithm
import MemClient.ServerList
import MemClient.AddFailure
import MemClient.ServerMap
import MemClient.RequestOperations
import MemClient.RequestThreads
import MemClient.SyncCompletion
import MemClient.ConnectionRuns
import MemClient.StatReplies
import MemClient.ReplyNumbers
import MemClient.StickyRouting
import MemClient.AlgorithmSwitching
import MemClient.ReplyHeader
import MemClient.StrayReplies
import MemClient.CallerBuffer
import MemClient.NameHierarchy
import MemClient.LogManager
import MemClient.LogLoading
import MemClient.LoggerIds
import MemClient.LoggerLookup
import MemClient.LoggerSections
import MemClient.SinkRouting
import MemClient.IdCapacity
import MemClient.SinkNames
import MemClient.RunRelation
import MemClient.PairedLoading
import MemClient.EarlyFetch
import MemClient.FileDiscovery
import MemClient.TextReplacement
import MemClient.SearchPattern
import MemClient.WildcardPattern
import MemClient.LineReplacement
import MemClient.SequentialService
import MemClient.KeyAffinity
import MemClient.KeyRouting
import MemClient.RoutingAgreement
import MemClient.ServerFleet
import MemClient.FleetAccounts
import MemClient.FleetHistory
import MemClient.LoggerHierarchy
import MemClient.LogDelivery
import MemClient.FileTraversal
import MemClient.FleetReads
import MemClient.ConfigDiscovery
import MemClient.ConfigStability
