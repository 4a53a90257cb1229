import OpiaiKernel.Xsmem.AlgoVma
import OpiaiKernel.Xsmem.VmaSafety
import OpiaiKernel.Xsmem.VmaFirstFit
import OpiaiKernel.Lib.Ring
import OpiaiKernel.Trs.LogicCq
import OpiaiKernel.Trs.LogicCqReceive
import OpiaiKernel.Trs.LogicCqDelivery
import OpiaiKernel.Trs.LogicCqWait
import OpiaiKernel.Trs.LogicCqWakeup
import OpiaiKernel.Lib.Keyed
import OpiaiKernel.Xsmem.PoolAlgo
import OpiaiKernel.Xsmem.Pool
import OpiaiKernel.Xsmem.PoolInv
import OpiaiKernel.Xsmem.PoolEffect
import OpiaiKernel.Xsmem.PoolFate
import OpiaiKernel.Xsmem.Framework
import OpiaiKernel.Xsmem.FrameworkInv
import OpiaiKernel.Xsmem.FrameworkActs
import OpiaiKernel.Xsmem.FrameworkSteps
import OpiaiKernel.Xsmem.PoolLifetime
import OpiaiKernel.Xsmem.PoolLimit
import OpiaiKernel.Xsmem.BlockFate
import OpiaiKernel.Xsmem.TaskAccounting
import OpiaiKernel.Trs.ChanSq
import OpiaiKernel.Trs.ChanCq
import OpiaiKernel.Esched.Group
import OpiaiKernel.Esched.GroupMap
import OpiaiKernel.Esched.GroupTimeout
import OpiaiKernel.Esched.DirectedDelivery
import OpiaiKernel.Esched.Node
import OpiaiKernel.Esched.NodeCustody
import OpiaiKernel.Esched.NodeSteps
import OpiaiKernel.Esched.NodeWait
import OpiaiKernel.Esched.NodeEvent
import OpiaiKernel.Esched.NodeCount
import OpiaiKernel.Esched.NodeInv
import OpiaiKernel.Esched.NodePublish
import OpiaiKernel.Esched.NodeSearch
import OpiaiKernel.Lib.KeyCount
import OpiaiKernel.Trs.ShmSqcq
import OpiaiKernel.Trs.ShmSqcqCount
import OpiaiKernel.Trs.CdqBatch
import OpiaiKernel.Trs.CdqBatchSafety
import OpiaiKernel.Trs.ChanInit
import OpiaiKernel.Trs.ChanRoute
import OpiaiKernel.Esched.ProcCounting
import OpiaiKernel.Trs.ResCount
import OpiaiKernel.Trs.ShrIdNode
import OpiaiKernel.Trs.ShrIdProtocol
import OpiaiKernel.Trs.SwCq
import OpiaiKernel.Lib.Heap
import OpiaiKernel.Pkicms.VerifyCtx
import OpiaiKernel.Pkicms.VerifyRelease
import OpiaiKernel.Lib.Scan
import OpiaiKernel.Pkicms.SocVerify
import OpiaiKernel.Pkicms.SocAuth
import OpiaiKernel.Pkicms.SocReads
import OpiaiKernel.Lib.Walk
import OpiaiKernel.Trs.ProcRecycle
import OpiaiKernel.Trs.ProcRecycleSteps
import OpiaiKernel.Trs.ProcRecycled
import OpiaiKernel.Trs.IdPool
import OpiaiKernel.Trs.IdRanges
import OpiaiKernel.Dms.Event
import OpiaiKernel.Dms.EventList
import OpiaiKernel.Dms.SensorFilter
import OpiaiKernel.Prof.SampleRing
import OpiaiKernel.Logdrv.MsgBuf
import OpiaiKernel.Logdrv.ReadChannel
import OpiaiKernel.Logdrv.SendMsg
import OpiaiKernel.Prof.ChannelCount
import OpiaiKernel.Prof.PollRing
import OpiaiKernel.Dms.Converge
import OpiaiKernel.Dms.AlarmConvergence
import OpiaiKernel.Hdc.MemPool
import OpiaiKernel.Ipcdrv.Mailbox
import OpiaiKernel.Hdc.EpollWakeup
import OpiaiKernel.Lib.BackPointer
import OpiaiKernel.Hdc.EpollEvents
import OpiaiKernel.Hdc.PagePool
import OpiaiKernel.Hdc.PagePoolSafety
import OpiaiKernel.Hdc.RangeTree
import OpiaiKernel.Hdc.RangeRegister
import OpiaiKernel.Hdc.RxChan
import OpiaiKernel.Hdc.RxChanOrder
import OpiaiKernel.Hdc.RxBuffers
import OpiaiKernel.Hdc.Session
import OpiaiKernel.Hdc.SessionSlots
import OpiaiKernel.Hdc.SessionPair
import OpiaiKernel.Hdc.SessionAgree
import OpiaiKernel.Esched.NonSchedWait
import OpiaiKernel.Esched.NonSchedWakeup
import OpiaiKernel.Trs.LogicCqCopy
import OpiaiKernel.Trs.LogicCqBytes
import OpiaiKernel.Xsmem.VmaFreeError
import OpiaiKernel.Trs.ChanSubmit
import OpiaiKernel.Esched.EventMessage
import OpiaiKernel.Esched.EventTrace
import OpiaiKernel.Trs.ChanResources
import OpiaiKernel.Xsmem.AttachFail
import OpiaiKernel.Esched.ExactFetch
import OpiaiKernel.Esched.NodeFinish
import OpiaiKernel.Esched.NodeClear
import OpiaiKernel.Esched.EventConservation
import OpiaiKernel.Esched.EventQuota
import OpiaiKernel.Esched.ExclusiveGroup
import OpiaiKernel.Pkicms.RsaV15
import OpiaiKernel.Pkicms.FileDigest
import OpiaiKernel.Pkicms.RsaPss
import OpiaiKernel.Prof.TsRing
import OpiaiKernel.Hdc.MemAdapter
import OpiaiKernel.Lib.Padded
import OpiaiKernel.Pkicms.IniGrammar
import OpiaiKernel.Pkicms.IniTable
import OpiaiKernel.Trs.ExitRefs
import OpiaiKernel.Dms.ConvergeConfig
import OpiaiKernel.Trs.SqcqAlloc
import OpiaiKernel.Hdmi.SinkCapability
import OpiaiKernel.Hdmi.DataBlocks
import OpiaiKernel.Hdmi.BlockReads
import OpiaiKernel.Hdmi.ExtBlock
import OpiaiKernel.Hdmi.BlockBounds
import OpiaiKernel.Hdmi.BlockKnown
import OpiaiKernel.Hdmi.Overreads
import OpiaiKernel.Hdmi.WalkBounds
import OpiaiKernel.Lib.Related
import OpiaiKernel.Lib.SortedSplit
import OpiaiKernel.UserCfg.Flash
import OpiaiKernel.UserCfg.FreeSpace
import OpiaiKernel.UserCfg.Rebuild
import OpiaiKernel.UserCfg.Operations
import OpiaiKernel.UserCfg.Layout
import OpiaiKernel.UserCfg.Compaction
import OpiaiKernel.UserCfg.RoomSearch
import OpiaiKernel.UserCfg.WriteItem
import OpiaiKernel.UserCfg.StoreSteps
import OpiaiKernel.UserCfg.StoreServe
import OpiaiKernel.UserCfg.StoreRuns
import OpiaiKernel.Lib.LeafExact
import OpiaiKernel.Xsmem.VmaFresh
import OpiaiKernel.Lib.SearchTree
import OpiaiKernel.Xsmem.CacheSp
import OpiaiKernel.Xsmem.CacheSpInv
import OpiaiKernel.Xsmem.CacheSpDev
import OpiaiKernel.Xsmem.CacheSpSteps
import OpiaiKernel.Xsmem.CacheSpRuns
import OpiaiKernel.Xsmem.CacheSpOps
import OpiaiKernel.Xsmem.CacheSpSafety
import OpiaiKernel.Xsmem.PropOp
import OpiaiKernel.Xsmem.PropSpec
import OpiaiKernel.Xsmem.PropLinks
import OpiaiKernel.Xsmem.PropOpSpec
import OpiaiKernel.Xsmem.TaskProp
import OpiaiKernel.Xsmem.TaskPropInv
import OpiaiKernel.Xsmem.TaskPropSteps
import OpiaiKernel.Xsmem.TaskPropRuns
import OpiaiKernel.Xsmem.TaskPropSafety
import OpiaiKernel.Lib.Mailbox
import OpiaiKernel.Dms.EventDistribute
import OpiaiKernel.Dms.Distribution
import OpiaiKernel.Dms.DistributionRuns
import OpiaiKernel.Dms.DistributionSafety
