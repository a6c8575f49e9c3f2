import Gateway.Lib.Exec
import Gateway.Lib.OneSlot
import Gateway.Lib.CyclicQueue
import Gateway.Lib.CriticalSection
import Gateway.Lib.Linearizable
import Gateway.Lib.RoundRobin
import Gateway.Lib.ByteMemory
import Gateway.Lib.AArch64
import Gateway.Lib.Isolation
import Gateway.Lib.Collision
import Gateway.RingBuffer.Ringbuf
import Gateway.RingBuffer.Linearization
import Gateway.RingBuffer.Calls
import Gateway.RingBuffer.Spsc
import Gateway.RingBuffer.Wiring
import Gateway.RingBuffer.WakeUp
import Gateway.Ipc.ReceiveLoop
import Gateway.Ipc.Replay
import Gateway.Ipc.Atomicity
import Gateway.Ipc.Authenticity
import Gateway.Crypto.TagCollision
import Gateway.Scheduler.Tcb
import Gateway.Scheduler.Statements
import Gateway.Scheduler.CoreInv
import Gateway.Scheduler.Isolation
import Gateway.Scheduler.Sleep
import Gateway.Scheduler.ContextSwitch
import Gateway.Scheduler.TaskMemory
import Gateway.Scheduler.Operations
import Gateway.Scheduler.TaskStates
import Gateway.Scheduler.SavedContext
import Gateway.Scheduler.Context
import Gateway.Scheduler.StackAlignment
import Gateway.Scheduler.Turns
import Gateway.Dispatcher.Pipeline
import Gateway.Boot.Mmu
import Gateway.Interrupts.ExceptionFrame
import Gateway.Interrupts.Nesting
import Gateway.Dispatcher.Acknowledge
import Gateway.Console.Programs
import Gateway.Console.Contiguity
import Gateway.Crypto.Fips180
import Gateway.Crypto.Rfc2104
import Gateway.Boot.MemoryMap
import Gateway.Crypto.BlockFunction
import Gateway.Interrupts.TimerTests
import Gateway.Interrupts.TimerRuns
import Gateway.Dispatcher.CommunicationTests
import Gateway.Lib.Interleave
import Gateway.Lib.MemoryView
import Gateway.Lib.OneMemory
import Gateway.RingBuffer.Bounds
import Gateway.Ipc.SharedMemory
import Gateway.Boot.Start
import Gateway.Scheduler.Refinement
import Gateway.Scheduler.RunningTask
import Gateway.Console.LockHolder
import Gateway.Console.Uart
