import Hvnetpp.Machine.Runs
import Hvnetpp.Machine.Window
import Hvnetpp.Mpsc.Model
import Hvnetpp.Mpsc.Ring
import Hvnetpp.Mpsc.Invariant
import Hvnetpp.Mpsc.Safety
import Hvnetpp.Loop.Model
import Hvnetpp.Mpsc.Access
import Hvnetpp.Loop.Callers
import Hvnetpp.Loop.Drain
import Hvnetpp.Loop.Steps
import Hvnetpp.Loop.Order
import Hvnetpp.Loop.Traffic
import Hvnetpp.Loop.Places
import Hvnetpp.Loop.Wakeup
import Hvnetpp.Machine.OrderedSet
import Hvnetpp.Timers.Model
import Hvnetpp.Timers.Invariant
import Hvnetpp.Server.Names
import Hvnetpp.Timers.Cancel
import Hvnetpp.Server.Connections
import Hvnetpp.Buffer.Model
import Hvnetpp.Buffer.Deque
import Hvnetpp.Channel
import Hvnetpp.Tcp.Connection
import Hvnetpp.Tcp.Output
import Hvnetpp.Tcp.Shutdown
import Hvnetpp.Tcp.Lifecycle
import Hvnetpp.Reactor.Model
import Hvnetpp.Reactor.Protocol
import Hvnetpp.Reactor.Lifetime
import Hvnetpp.Timers.Objects
import Hvnetpp.Timers.Schedule
import Hvnetpp.Timers.History
import Hvnetpp.Timers.Arming
import Hvnetpp.Timers.Calls
import Hvnetpp.Timers.CrossThread
import Hvnetpp.Buffer.Refinement
import Hvnetpp.Poller
import Hvnetpp.Udp.Model
import Hvnetpp.Udp.Cleanup
import Hvnetpp.Udp.Receive
import Hvnetpp.Server.Acceptor
import Hvnetpp.Server.Start
import Hvnetpp.Reactor.Accounts
import Hvnetpp.Reactor.Upkeep
import Hvnetpp.Reactor.Ledger
import Hvnetpp.Reactor.Inventory
import Hvnetpp.Reactor.Descriptors
import Hvnetpp.Buffer.Growth
import Hvnetpp.Buffer.Wrap
import Hvnetpp.Timers.Due
import Hvnetpp.Timers.Stale
import Hvnetpp.Tcp.FlowControl
import Hvnetpp.Tcp.Overloads
import Hvnetpp.Timers.Identity
import Hvnetpp.Udp.Sequential
import Hvnetpp.Loop.Batch
import Hvnetpp.Loop.Alone
import Hvnetpp.Timers.Wrap
import Hvnetpp.Timers.Early
import Hvnetpp.Machine.Objects
import Hvnetpp.Machine.Spelling
import Hvnetpp.Address.Model
import Hvnetpp.Address.Text
import Hvnetpp.Address.Parse
import Hvnetpp.Tcp.Input
import Hvnetpp.Tcp.Pair
import Hvnetpp.Loop.Rounds
import Hvnetpp.Loop.Quit
import Hvnetpp.Tcp.Threads
import Hvnetpp.Machine.HappensBefore
import Hvnetpp.Mpsc.Races
import Hvnetpp.Poller.Dispatch
import Hvnetpp.Server.Backlog
import Hvnetpp.Machine.Pages
import Hvnetpp.Mpsc.Mirror
