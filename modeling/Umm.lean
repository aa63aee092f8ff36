import Umm.Lib.Reach
import Umm.Common.BitmapAllocatorRuns
import Umm.Transport.SsdPoolRuns
import Umm.Transport.SsdPoolRefine
import Umm.Transport.SsdTransportRuns
import Umm.Transport.RemoteRuns
import Umm.Transport.RemoteFraming
import Umm.Metadata.HashTableRuns
import Umm.Metadata.DirectoryRuns
import Umm.Metadata.MetaRpcListing
import Umm.Client.GpaFidelity
import Umm.Client.ApiRuns
import Umm.Memory.MemRpcSpec
import Umm.Protocol.RoundTrip
import Umm.Protocol.Bounds
import Umm.SparseKv.StoreRuns
import Umm.Lib.Tally
import Umm.Engine.Accounted
import Umm.Engine.Backpressure
import Umm.Engine.ChunkFifoExecution
import Umm.Client.AllocatorRuns
import Umm.Client.InitRuns
import Umm.Server.ServerRuns
import Umm.Transport.SsdPoolLayout
import Umm.Ppa.HookRuns
import Umm.Transport.SsdPoolReach
import Umm.Transport.SsdPoolExact
import Umm.Transport.SsdPoolBatchEach
import Umm.Transport.SsdFence
import Umm.Transport.SsdBackendNdsRuns
import Umm.Common.BitmapAllocatorEnds
import Umm.Memory.MemServiceRuns
import Umm.Memory.MemServiceBounds
import Umm.Memory.MemServiceRegister
import Umm.Memory.MemServiceFiles
import Umm.Transport.TransportLocal
import Umm.Memory.MemServiceUndo
import Umm.Metadata.HashTableHeap
import Umm.Metadata.DirectoryHeap
import Umm.Metadata.DirectoryIndex
import Umm.Client.ApiRollback
import Umm.Client.RegisterStorageRuns
import Umm.Server.AclExact
import Umm.Client.CisPeers
import Umm.Client.ConfigSizes
import Umm.Memory.MemTopology
import Umm.Server.MemClientThread
import Umm.Transport.RemoteAddress
import Umm.Transport.RemoteBoundary
import Umm.Transport.RemoteStatus
import Umm.Memory.TierStats
import Umm.Ppa.ExportAddresses
import Umm.Media.PrimeTest
import Umm.SparseKv.StoreAccepts
import Umm.SparseKv.OffloadAgain
import Umm.Metadata.DirectoryRefs
import Umm.Transport.SsdNdsIo
import Umm.Transport.SsdDirect
import Umm.Client.AllocatorDelete
import Umm.Engine.SignalsLive
import Umm.Common.BitmapSearch
import Umm.Bench.SingleSsd
import Umm.Ppa.HbmChoice
import Umm.Ppa.SelectionOrder
import Umm.Ppa.OracleControl
import Umm.Metadata.HashTableProbes
import Umm.Metadata.HashTableRehash
import Umm.Engine.BufferIo
import Umm.Ppa.Reconcile
import Umm.Bench.ReplaySufficient
import Umm.Transport.SharedDisks
import Umm.Metadata.Topology
import Umm.Metadata.HashTableIter
import Umm.Bench.MissTrace
import Umm.Ppa.OracleOutcome
import Umm.Ppa.ExportChecked
import Umm.Client.DataPlaneRuns
