import SensorServer.Framework.Bytes
import SensorServer.Framework.CString
import SensorServer.Framework.GetOpt
import SensorServer.Framework.Heap
import SensorServer.Framework.SlotStack
import SensorServer.Framework.Traced
import SensorServer.Framework.Transition
import SensorServer.Framework.Simulation
import SensorServer.Framework.Pthread
import SensorServer.Framework.Locks
import SensorServer.Framework.LinkedQueue
import SensorServer.Framework.Custody
import SensorServer.Framework.Roster
import SensorServer.Framework.LinearRegister
import SensorServer.Parser.Syntax
import SensorServer.Parser.ParsePacket
import SensorServer.Parser.CallSpec
import SensorServer.Parser.Effects
import SensorServer.Parser.Bounds
import SensorServer.Parser.Packets
import SensorServer.Parser.Pipelining
import SensorServer.Parser.Received
import SensorServer.Parser.SinglePacket
import SensorServer.Parser.Remainder
import SensorServer.Parser.Fragments
import SensorServer.Parser.Indeterminate
import SensorServer.Parser.ArgumentBlock
import SensorServer.Parser.EncodePacket
import SensorServer.Table.Connections
import SensorServer.Table.Capacity
import SensorServer.Table.Disconnect
import SensorServer.Table.Order
import SensorServer.Loop.StartEpoll
import SensorServer.Loop.Batch
import SensorServer.Pool.ThreadPool
import SensorServer.Pool.Effects
import SensorServer.Pool.Counters
import SensorServer.Pool.Contract
import SensorServer.Pool.JobQueue
import SensorServer.Pool.Spec
import SensorServer.Pool.Refinement
import SensorServer.Pool.Wakeups
import SensorServer.Pool.Waiting
import SensorServer.Pool.Progress
import SensorServer.Pool.Destroy
import SensorServer.Pool.Draining
import SensorServer.System.Kernel
import SensorServer.System.Server
import SensorServer.System.Moves
import SensorServer.System.Identity
import SensorServer.System.Accounts
import SensorServer.System.Backlog
import SensorServer.System.Closing
import SensorServer.System.Counter
import SensorServer.System.Leaks
import SensorServer.System.Reorder
import SensorServer.System.Replies
import SensorServer.System.Undisturbed
import SensorServer.System.Census
import SensorServer.System.Delivery
import SensorServer.System.Departure
import SensorServer.System.Ownership
import SensorServer.System.Answers
import SensorServer.System.Pooled
import SensorServer.System.Completion
import SensorServer.Startup.Main
import SensorServer.Startup.BringUp
import SensorServer.Log.Logger
import SensorServer.Uuid.Uuid4
import SensorServer.Uuid.Xorshift128plus
