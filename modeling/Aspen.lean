import Aspen.Base.Bitmap
import Aspen.Base.Caching
import Aspen.Base.Lrpc
import Aspen.Base.Mempool
import Aspen.Base.SlabAccounting
import Aspen.Base.Smalloc
import Aspen.Base.Storage
import Aspen.Iokernel.Attach
import Aspen.Iokernel.Completed
import Aspen.Iokernel.Cores
import Aspen.Iokernel.FindHead
import Aspen.Iokernel.IasPunish
import Aspen.Iokernel.Lifetime
import Aspen.Iokernel.Limits
import Aspen.Iokernel.Mailbox
import Aspen.Iokernel.Registration
import Aspen.Iokernel.Routing
import Aspen.Iokernel.Rss
import Aspen.Iokernel.ShmLayout
import Aspen.Iokernel.Steering
import Aspen.Iokernel.Transmit
import Aspen.Net.Affinity
import Aspen.Net.ArpForward
import Aspen.Net.Chksum
import Aspen.Net.Ip
import Aspen.Sched.Create
import Aspen.Sched.Places
import Aspen.Sched.Requests
import Aspen.Sched.Waits
import Aspen.Sched.Wrapped
import Aspen.Sync.GracePeriod
import Aspen.Sync.LazyMutex
import Aspen.Sync.Mutex
import Aspen.Sync.RwMutex
import Aspen.Sync.Timeouts
import Aspen.Tcp.Accounting
import Aspen.Tcp.Acking
import Aspen.Tcp.Lifecycle
import Aspen.Tcp.Opening
import Aspen.Tcp.OutOfOrder
import Aspen.Tcp.References
import Aspen.Tcp.Segments
import Aspen.Tcp.Stream
import Aspen.Tcp.Timers
import Aspen.Tcp.Window
