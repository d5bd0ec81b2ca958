import GridOS.Words
import GridOS.DoublyLinked
import GridOS.Intervals
import GridOS.Malloc
import GridOS.MallocShape
import GridOS.MallocRuns
import GridOS.Bits
import GridOS.Bitmap
import GridOS.I2p
import GridOS.I2pRuns
import GridOS.Pages
import GridOS.PagesRuns
import GridOS.Vm
import GridOS.VmRuns
import GridOS.Ring
import GridOS.Msg
import GridOS.MsgLayout
import GridOS.MsgRuns
import GridOS.Walk
import GridOS.WalkRange
import GridOS.Mltt
import GridOS.MlttRuns
import GridOS.MlttServed
import GridOS.Handle
import GridOS.Sched
import GridOS.SchedRuns
import GridOS.SchedFair
import GridOS.CopyOnWrite
import GridOS.ImagePages
import GridOS.ImagePagesRuns
import GridOS.Sleeper
import GridOS.Wakeup
import GridOS.Complete
import GridOS.CompleteRuns
import GridOS.Critical
import GridOS.Sync
import GridOS.SyncRuns
import GridOS.Mutex
import GridOS.Event
import GridOS.Circle
import GridOS.RingBuff
import GridOS.RingBuffRuns
import GridOS.RingBuffFifo
import GridOS.Tree
import GridOS.TreeImport
import GridOS.TreeViews
import GridOS.Dirent
import GridOS.StreamFile
import GridOS.StreamFileRuns
import GridOS.DriverMemory
import GridOS.ListHead
import GridOS.SubSection
import GridOS.SubSectionRuns
import GridOS.Fault
import GridOS.FaultRuns
import GridOS.Pools
import GridOS.TableCount
import GridOS.TableCountRuns
import GridOS.Notify
import GridOS.MsgWords
import GridOS.MsgPool
import GridOS.WaitNode
import GridOS.BitmapScan
import GridOS.PthreadKey
import GridOS.Keyboard
import GridOS.Modifiers
import GridOS.KeyboardQueue
import GridOS.TcpRecv
import GridOS.TcpSend
import GridOS.Wheel
import GridOS.Timer
import GridOS.TimerRuns
import GridOS.TimerCount
import GridOS.Environ
import GridOS.Linker
import GridOS.LinkerRuns
import GridOS.BitmapAlloc
import GridOS.VmSearch
import GridOS.MallocSearch
import GridOS.MallocRequests
import GridOS.PageMap
import GridOS.PageShare
import GridOS.PagesInsert
import GridOS.PagesSearch
import GridOS.PagesUse
import GridOS.PagesOrder
import GridOS.PagesFree
import GridOS.PagesAtomic
import GridOS.I2pLoop
import GridOS.WakeCount
import GridOS.Blkbuf
import GridOS.BlkbufLayout
import GridOS.BlkbufRuns
import GridOS.Object
import GridOS.WaitObjects
import GridOS.ThreadSync
import GridOS.FileHandle
import GridOS.ExeOpen
import GridOS.RingBuffSearch
import GridOS.BlkbufWords
import GridOS.DbdGet
import GridOS.AlignedAlloc
import GridOS.Lru
import GridOS.MlttReads
import GridOS.MlttViews
import GridOS.PathReads
import GridOS.FileRefs
import GridOS.DirRecords
import GridOS.BitSearch
import GridOS.RecvStream
import GridOS.CmdLine
import GridOS.H2d
import GridOS.Vsprintf
import GridOS.LinkerMaps
import GridOS.Rounds
import GridOS.StreamIo
import GridOS.StreamErrors
import GridOS.StreamSim
import GridOS.FifoLock
import GridOS.TicketLock
import GridOS.RwLock
import GridOS.ProbeTable
import GridOS.Ihash
import GridOS.IhashRuns
import GridOS.PthreadSpecific
import GridOS.Resource
import GridOS.ResourceRuns
import GridOS.IrqLine
import GridOS.IrqLineRuns
import GridOS.Vsnprintf
