import Syinx.Library.Runs
import Syinx.Library.Traces
import Syinx.Library.Delay
import Syinx.Library.Ring
import Syinx.Library.Lock
import Syinx.Library.Recycle
import Syinx.Library.Framing
import Syinx.Library.Counting
import Syinx.Library.Interrupt
import Syinx.Library.Pacing
import Syinx.Library.Potential
import Syinx.Library.Parts
import Syinx.Library.Lending
import Syinx.Library.Lines
import Syinx.Library.SortedMap
import Syinx.Pthread.Pool
import Syinx.Pthread.AddTask
import Syinx.Pthread.Machine
import Syinx.Pthread.Delivery
import Syinx.Pthread.FullQueue
import Syinx.Pthread.Shutdown
import Syinx.Pthread.Wakeup
import Syinx.Pthread.Quiescence
import Syinx.Pthread.LifeCycle
import Syinx.Pthread.Start
import Syinx.Pthread.Startup
import Syinx.Pthread.Atomic
import Syinx.Pthread.Refinement
import Syinx.Tcp.Channel
import Syinx.Tcp.Wire
import Syinx.Tcp.Parsing
import Syinx.Tcp.Sending
import Syinx.Tcp.Resource
import Syinx.Tcp.ChannelPool
import Syinx.Tcp.Conservation
import Syinx.Tcp.Marking
import Syinx.Tcp.Isolation
import Syinx.Tcp.Core
import Syinx.Tcp.Release
import Syinx.Tcp.Pairing
import Syinx.Tcp.Account
import Syinx.Threaded.Machine
import Syinx.Threaded.Echo
import Syinx.Threaded.Lifetime
import Syinx.Threaded.BufferLock
import Syinx.Threaded.Sessions
import Syinx.Ini.Text
import Syinx.Ini.Parse
import Syinx.Ini.Grammar
import Syinx.Ini.Writing
import Syinx.Ini.Range
import Syinx.Ini.Reader
import Syinx.Ini.Buffer
import Syinx.Ini.Number
import Syinx.Kernel.Config
import Syinx.Kernel.ConfigFile
import Syinx.Kernel.Machine
import Syinx.Kernel.Launch
import Syinx.Kernel.Links
import Syinx.Kernel.Signal
import Syinx.Kernel.Closing
import Syinx.Kernel.Teardown
import Syinx.Kernel.Ledger
import Syinx.Kernel.FrameLoop
import Syinx.Kernel.Pace
import Syinx.Kernel.Http
import Syinx.Mysql.Table
import Syinx.Mysql.ReadBack
import Syinx.Mysql.Appended
import Syinx.Mysql.Handles
import Syinx.Mysql.Loans
