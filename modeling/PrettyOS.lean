import PrettyOS.Fs.BufferLayout
import PrettyOS.Fs.Directory
import PrettyOS.Fs.Entries
import PrettyOS.Fs.FileRead
import PrettyOS.Fs.GiveBack
import PrettyOS.Fs.MapRelease
import PrettyOS.Fs.PathSplit
import PrettyOS.Fs.Seek
import PrettyOS.Fs.WriteTwice
import PrettyOS.Kernel.ConsoleCursor
import PrettyOS.Kernel.Modifiers
import PrettyOS.Kernel.Partition
import PrettyOS.Kernel.RunQueue
import PrettyOS.Kernel.Segment
import PrettyOS.Kernel.Timer
import PrettyOS.Kernel.Tty
import PrettyOS.Kernel.VirtualTime
import PrettyOS.Kernel.WaitQueue
import PrettyOS.Lib.Vsprintf
import PrettyOS.Mm.AvlRuns
import PrettyOS.Mm.BuddyOrder
import PrettyOS.Mm.InodeRefs
import PrettyOS.Mm.MmapRequest
import PrettyOS.Mm.PageCache
import PrettyOS.Mm.PageFault
import PrettyOS.Mm.PageRequests
import PrettyOS.Mm.PagingInit
import PrettyOS.Mm.ShareRings
import PrettyOS.Mm.SlabChain
import PrettyOS.Mm.SlabGrowth
import PrettyOS.Mm.SlabMemory
import PrettyOS.Mm.UnmapRange
import PrettyOS.Net.Arp
import PrettyOS.Net.DevXmit
import PrettyOS.Net.FragQueue
import PrettyOS.Net.IpFragment
import PrettyOS.Net.LongestPrefix
import PrettyOS.Net.NetBh
import PrettyOS.Net.QueueXmit
import PrettyOS.Net.Registration
import PrettyOS.Net.SockTable
import PrettyOS.Net.TcpClose
import PrettyOS.Net.TcpSend
