import Hashpipe.Library.StepSystem
import Hashpipe.Library.RingWindow
import Hashpipe.Library.SemaphoreSet
import Hashpipe.Library.SysVIpc
import Hashpipe.Library.StepSequence
import Hashpipe.Library.LinkedChain
import Hashpipe.Library.QueueFamily
import Hashpipe.Library.ByteMemory
import Hashpipe.Library.Binary64
import Hashpipe.Library.CNumber
import Hashpipe.Error
import Hashpipe.Databuf.Semaphores
import Hashpipe.Databuf.RingProtocol
import Hashpipe.Databuf.BlockStatus
import Hashpipe.Databuf.Create
import Hashpipe.Databuf.BlockLayout
import Hashpipe.Databuf.CreateFailure
import Hashpipe.Databuf.CreateRace
import Hashpipe.Status.Lock
import Hashpipe.Status.Search
import Hashpipe.Status.Put
import Hashpipe.Status.Layout
import Hashpipe.Status.Get
import Hashpipe.Status.Buffer
import Hashpipe.Status.Records
import Hashpipe.Status.Tools
import Hashpipe.Status.IntMap
import Hashpipe.Status.Capacity
import Hashpipe.Status.Chkinit
import Hashpipe.ThreadRun
import Hashpipe.ThreadFinished
import Hashpipe.Ibverbs.Verbs
import Hashpipe.Ibverbs.Send
import Hashpipe.Ibverbs.SendRoom
import Hashpipe.Ibverbs.Recv
import Hashpipe.Ibverbs.Flow
import Hashpipe.Ibverbs.PacketSetup
import Hashpipe.Ibverbs.Init
import Hashpipe.Ibverbs.InitState
import Hashpipe.Ibverbs.PacketSlots
import Hashpipe.Ibverbs.Pairing
import Hashpipe.Pktsock.Ring
import Hashpipe.Library.OnesComplement
import Hashpipe.Packet
import Hashpipe.Databuf.BlockTools
import Hashpipe.Pktsock.Udp
import Hashpipe.Status.Semname
import Hashpipe.Status.Attach
import Hashpipe.Ibverbs.DeviceSearch
import Hashpipe.Ibverbs.FlowMatch
import Hashpipe.Status.Lines
import Hashpipe.Status.Strings
import Hashpipe.Status.OptionStore
import Hashpipe.CommandLine
import Hashpipe.Privileges
import Hashpipe.IpcKey
import Hashpipe.Databuf.OwnIds
import Hashpipe.PipelineDatabufs
import Hashpipe.CleanShmem
import Hashpipe.Ibverbs.WorkRequests
import Hashpipe.Status.CheckStatus
import Hashpipe.Library.StageChain
import Hashpipe.PipelineRun
import Hashpipe.Library.DoubleText
import Hashpipe.Status.Doubles
import Hashpipe.Library.CriticalSection
import Hashpipe.Status.Sections
import Hashpipe.Status.Ledger
import Hashpipe.Status.ValueMap
import Hashpipe.Status.CrossReads
import Hashpipe.Library.Isolation
import Hashpipe.Instances
import Hashpipe.UdpPacket
import Hashpipe.Pktsock.Open
import Hashpipe.Databuf.ByteRing
import Hashpipe.Databuf.BlockData
import Hashpipe.Databuf.CheckDatabuf
import Hashpipe.UdpSocket
import Hashpipe.Ibverbs.FlowTable
import Hashpipe.Ibverbs.InterfaceInfo
import Hashpipe.Status.SharedMap
import Hashpipe.Status.NewSegment
import Hashpipe.Status.ReaderBounds
import Hashpipe.Library.CleanupHandlers
import Hashpipe.ThreadCleanup
