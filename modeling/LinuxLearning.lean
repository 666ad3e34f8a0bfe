import LinuxLearning.Lib.Run
import LinuxLearning.Lib.Threads
import LinuxLearning.Lib.Fifo
import LinuxLearning.Lib.LinkedList
import LinuxLearning.ProdCons.Buffer
import LinuxLearning.ProdCons.Queue
import LinuxLearning.ProdCons.Pipeline
import LinuxLearning.ProdCons.Delivery
import LinuxLearning.ProdCons.LazyInit
import LinuxLearning.CondQueue.Jobs
import LinuxLearning.CondQueue.Messages
import LinuxLearning.CondQueue.Wakeup
import LinuxLearning.Lib.Lua
import LinuxLearning.Speller.Platform
import LinuxLearning.Speller.Buttons
import LinuxLearning.Speller.Layouts
import LinuxLearning.Speller.Refresh
import LinuxLearning.Speller.Handlers
import LinuxLearning.Speller.Specs
import LinuxLearning.Speller.Invariant
import LinuxLearning.Speller.Focus
import LinuxLearning.Speller.Typing
import LinuxLearning.Speller.Lookup
import LinuxLearning.Speller.Destructor
import LinuxLearning.Speller.Space
import LinuxLearning.SampleCallBack.Subscriptions
import LinuxLearning.Lib.Errno
import LinuxLearning.Uart.Open
import LinuxLearning.Uart.Writers
import LinuxLearning.Lib.Ledger
import LinuxLearning.Uart.Probe
import LinuxLearning.Lib.SysV
import LinuxLearning.ProdCons.Deadlock
import LinuxLearning.ProcSeq.Lifetime
import LinuxLearning.Ring.SharedMemory
import LinuxLearning.Speller.Table
import LinuxLearning.Speller.Touch
import LinuxLearning.Lib.Tour
import LinuxLearning.Speller.Cycle
import LinuxLearning.Speller.Reach
import LinuxLearning.Speller.Idempotent
import LinuxLearning.Speller.Walk
import LinuxLearning.Lib.Rect
import LinuxLearning.Speller.Hits
import LinuxLearning.Speller.Children
import LinuxLearning.FifoServer.Relay
import LinuxLearning.SampleBZ.Config
import LinuxLearning.Lib.Circular
import LinuxLearning.ProcSeq.Sessions
import LinuxLearning.SampleBZ.Comments
import LinuxLearning.ProdCons.SetUpFailure
import LinuxLearning.Ring.Characters
import LinuxLearning.Ring.Lock
import LinuxLearning.Uart.Diagnosis
import LinuxLearning.CondQueue.Text
import LinuxLearning.ProdCons.Display
import LinuxLearning.Speller.Nearest
import LinuxLearning.Lib.Rose
import LinuxLearning.Speller.Toggle
import LinuxLearning.Sys.GroupSets
import LinuxLearning.Sys.Users
import LinuxLearning.Sys.Sessions
import LinuxLearning.Sys.Limits
import LinuxLearning.Sys.Priority
import LinuxLearning.Sys.Names
import LinuxLearning.Sys.Usage
import LinuxLearning.ForkWait.Reaping
import LinuxLearning.ForkWait.Chain
import LinuxLearning.ForkWait.Build
import LinuxLearning.ForkWait.Handler
import LinuxLearning.CondQueue.Memory
import LinuxLearning.CondQueue.Progress
import LinuxLearning.ProdCons.Rest
