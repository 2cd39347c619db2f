import Mathlib.Logic.Function.Basic
import Hvnetpp.Machine.Runs
import Hvnetpp.Channel

namespace Hvnetpp.Udp

inductive SocketState where
  | closed
  | opened
  | bound
  | receiving
  deriving DecidableEq, Repr

inductive Family where
  | unspec
  | inet
  | inet6
  deriving DecidableEq, Repr

/-- The functors of a `UdpSocket`. `opened` is history: whether the descriptor was open when the call that made
    the functor took the channel. `keep` is the functor that only holds the channel. -/
inductive Functor where
  | enableReading (channel : Nat) (opened : Bool)
  | disableReading (channel : Nat) (opened : Bool)
  | cleanup (channel sockfd : Option Nat)
  | keep (channel : Nat)
  deriving DecidableEq, Repr

-- The places are the accesses to the members that other threads access too. `isBound()` loads `state_` twice
-- unless the first load finds `kBound`.
inductive Starting where
  | loadBound
  | loadReceiving
  | check
  | store
  | submit
  deriving DecidableEq, Repr

inductive Stopping where
  | check
  | store
  | submit
  deriving DecidableEq, Repr

inductive Binding where
  | sockfd
  | ensure
  | family
  | create
  | created
  | setFamily
  | setOpened
  | construct
  | setChannel
  | bind
  | moveChannel
  | moveSockfd
  | clearFamily
  | clearSockfd
  | setClosed
  | cleanup
  | check
  | setBound
  deriving DecidableEq, Repr

/-- Where a thread is in its call, with the locals of the call. -/
inductive Call where
  | outside
  | starting (place : Starting) (channel : Nat) (opened : Bool)
  | stopping (place : Stopping) (channel : Nat) (opened : Bool)
  | binding (place : Binding) (family : Family) (createdSocket : Bool) (channel sockfd : Option Nat)
  deriving DecidableEq, Repr

/-- A `UdpSocket` with the sockets and channels it has made, by number, the threads that call it and the
    functors that wait in the loop. A member that holds no descriptor is `none`. `stale` records that a functor,
    or a call on the loop thread, registered a descriptor that was closed after its call had taken the
    channel. -/
structure State (ι : Type) where
  threadId : ι
  alive : Bool
  family : Family
  sockfd : Option Nat
  state : SocketState
  channel : Option Nat
  numSockets : Nat
  closed : Nat → Bool
  numChannels : Nat
  channels : Nat → Channel
  descriptor : Nat → Option Nat
  calls : ι → Call
  queue : List Functor
  stale : Bool

variable {ι : Type}

def State.initial (threadId : ι) : State ι :=
  { threadId := threadId, alive := true, family := .unspec, sockfd := none, state := .closed, channel := none,
    numSockets := 0, closed := fun _ => false, numChannels := 0, channels := fun _ => .create,
    descriptor := fun _ => none, calls := fun _ => .outside, queue := [], stale := false }

/-- The channel's descriptor has been closed. -/
def State.isClosed (s : State ι) (channel : Nat) : Bool := (s.descriptor channel).any s.closed

/-- The channel's interest changes, and `update()` tells the poller. -/
def State.setReading (s : State ι) (channel : Nat) (opened reading : Bool) : State ι :=
  let changed : Channel := { s.channels channel with events := { (s.channels channel).events with reading := reading } }
  { s with
    channels := Function.update s.channels channel changed.update
    stale := s.stale || (opened && s.isClosed channel && decide (changed.issued = some .add ∨ changed.issued = some .mod)) }

def State.enableReading (s : State ι) (channel : Nat) (opened : Bool) : State ι := s.setReading channel opened true

def State.disableReading (s : State ι) (channel : Nat) (opened : Bool) : State ι := s.setReading channel opened false

/-- `sockets::close`. -/
def State.close (s : State ι) (sockfd : Nat) : State ι :=
  { s with
    closed := Function.update s.closed sockfd true
    channels := fun channel =>
      if s.descriptor channel = some sockfd then (s.channels channel).close else s.channels channel }

/-- The body of the lambda in `cleanupUdpSocket`. -/
def State.cleanup (s : State ι) (channel sockfd : Option Nat) : State ι :=
  let removed := match channel with
    | some channel => { s with
        channels := Function.update s.channels channel (s.channels channel).disableAll.remove
        queue := s.queue ++ [.keep channel] }
    | none => s
  match sockfd with
  | some sockfd => removed.close sockfd
  | none => removed

def State.execute (s : State ι) : Functor → State ι
  | .enableReading channel opened => s.enableReading channel opened
  | .disableReading channel opened => s.disableReading channel opened
  | .cleanup channel sockfd => s.cleanup channel sockfd
  | .keep _ => s

inductive Action (ι : Type) where
  | startReceive (thread : ι)
  | stopReceive (thread : ι)
  | bind (thread : ι) (family : Family)
  | advance (thread : ι) (succeeds : Bool)
  | destroy (thread : ι)
  | execute (index : Nat)
  deriving DecidableEq, Repr

section Steps

variable [DecidableEq ι]

def State.goto (s : State ι) (thread : ι) (place : Call) : State ι :=
  { s with calls := Function.update s.calls thread place }

/-- `runInLoop`, and `cleanupUdpSocket` in the same way. -/
def State.runInLoop (s : State ι) (thread : ι) (functor : Functor) : State ι :=
  if thread = s.threadId then s.execute functor else { s with queue := s.queue ++ [functor] }

def State.start (s : State ι) (thread : ι) (channel : Nat) (opened : Bool) : Starting → State ι
  | .loadBound =>
    s.goto thread (.starting (if s.state = .bound then .check else .loadReceiving) channel opened)
  | .loadReceiving => s.goto thread (if s.state = .receiving then .starting .check channel opened else .outside)
  | .check => s.goto thread (if s.state = .receiving then .outside else .starting .store channel opened)
  | .store => { s.goto thread (.starting .submit channel opened) with state := .receiving }
  | .submit => (s.goto thread .outside).runInLoop thread (.enableReading channel opened)

def State.stop (s : State ι) (thread : ι) (channel : Nat) (opened : Bool) : Stopping → State ι
  | .check => s.goto thread (.stopping (if s.state = .receiving then .store else .submit) channel opened)
  | .store => { s.goto thread (.stopping .submit channel opened) with state := .bound }
  | .submit => (s.goto thread .outside).runInLoop thread (.disableReading channel opened)

/-- `succeeds` is the outcome of `socket` at `create` and of `::bind` at `bind`. -/
def State.advanceBind (s : State ι) (thread : ι) (succeeds : Bool) (family : Family) (createdSocket : Bool)
    (channel sockfd : Option Nat) : Binding → State ι
  | .sockfd => s.goto thread (.binding .ensure family s.sockfd.isNone channel sockfd)
  | .ensure =>
    s.goto thread (.binding (if s.sockfd.isSome then .family else .create) family createdSocket channel sockfd)
  | .family =>
    s.goto thread (if s.family = family then .binding .bind family createdSocket channel sockfd else .outside)
  | .create =>
    { s.goto thread (.binding .created family createdSocket channel sockfd) with
      sockfd := if succeeds then some s.numSockets else none
      numSockets := s.numSockets + 1 }
  | .created =>
    s.goto thread (if s.sockfd.isNone then .outside else .binding .setFamily family createdSocket channel sockfd)
  | .setFamily => { s.goto thread (.binding .setOpened family createdSocket channel sockfd) with family := family }
  | .setOpened => { s.goto thread (.binding .construct family createdSocket channel sockfd) with state := .opened }
  | .construct =>
    { s.goto thread (.binding .setChannel family createdSocket (some s.numChannels) sockfd) with
      numChannels := s.numChannels + 1
      descriptor := Function.update s.descriptor s.numChannels s.sockfd }
  | .setChannel => { s.goto thread (.binding .bind family createdSocket none sockfd) with channel := channel }
  | .bind =>
    s.goto thread (if succeeds ∧ s.sockfd.isSome then .binding .check family createdSocket channel sockfd
      else if createdSocket then .binding .moveChannel family createdSocket channel sockfd else .outside)
  | .moveChannel => { s.goto thread (.binding .moveSockfd family createdSocket s.channel sockfd) with channel := none }
  | .moveSockfd => s.goto thread (.binding .clearFamily family createdSocket channel s.sockfd)
  | .clearFamily => { s.goto thread (.binding .clearSockfd family createdSocket channel sockfd) with family := .unspec }
  | .clearSockfd => { s.goto thread (.binding .setClosed family createdSocket channel sockfd) with sockfd := none }
  | .setClosed => { s.goto thread (.binding .cleanup family createdSocket channel sockfd) with state := .closed }
  | .cleanup => (s.goto thread .outside).runInLoop thread (.cleanup channel sockfd)
  | .check =>
    s.goto thread (if s.state = .receiving then .outside else .binding .setBound family createdSocket channel sockfd)
  | .setBound => { s.goto thread .outside with state := .bound }

/-- The loop thread executes the waiting functors while it is in no call; nothing is assumed of their order. -/
def step (s : State ι) : Action ι → Option (State ι)
  | .startReceive thread =>
    if s.alive ∧ s.calls thread = .outside then
      match s.channel with
      | some channel => some (s.goto thread (.starting .loadBound channel !(s.isClosed channel)))
      | none => some s
    else none
  | .stopReceive thread =>
    if s.alive ∧ s.calls thread = .outside then
      match s.channel with
      | some channel => some (s.goto thread (.stopping .check channel !(s.isClosed channel)))
      | none => some s
    else none
  | .bind thread family =>
    if s.alive ∧ s.calls thread = .outside then some (s.goto thread (.binding .sockfd family false none none))
    else none
  | .advance thread succeeds =>
    match s.calls thread with
    | .outside => none
    | .starting place channel opened => some (s.start thread channel opened place)
    | .stopping place channel opened => some (s.stop thread channel opened place)
    | .binding place family createdSocket channel sockfd =>
      some (s.advanceBind thread succeeds family createdSocket channel sockfd place)
  | .destroy thread =>
    if s.alive ∧ s.calls thread = .outside then
      some ({ s with alive := false, state := .closed, channel := none, sockfd := none }.runInLoop thread
        (.cleanup s.channel s.sockfd))
    else none
  | .execute index =>
    if s.calls s.threadId = .outside then
      s.queue[index]?.map fun functor => { s with queue := s.queue.eraseIdx index }.execute functor
    else none

end Steps

end Hvnetpp.Udp
