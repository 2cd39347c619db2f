import Hvnetpp.Machine.Runs
import Hvnetpp.Server.Connections
import Hvnetpp.Tcp.Connection

namespace Hvnetpp.Reactor

open Machine Server Tcp

/-- An element of `activeChannels_`, by the owner of the channel. `loop` stands for the channels of the loop
    itself, the wakeup descriptor and the timer queue. -/
inductive ChannelRef where
  | connection (conn : Nat)
  | acceptor (server : Nat)
  | udp (socket : Nat)
  | loop
  deriving DecidableEq, Repr

inductive Functor where
  | connectDestroyed (conn : Nat)
  | send (conn : Nat) (data : List UInt8)
  | shutdown (conn : Nat)
  | task (conn : Nat) (task : Task)
  | keepAcceptor (server : Nat)
  | keepUdp (socket : Nat)
  | user
  deriving DecidableEq, Repr

/-- The connection whose shared pointer a functor has captured. -/
def Functor.conn : Functor → Option Nat
  | .connectDestroyed conn | .send conn _ | .shutdown conn | .task conn _ => some conn
  | .keepAcceptor _ | .keepUdp _ | .user => none

/-- A call on the stack of the loop thread, with what is left of it to do: user code (a callback of the
    connection, if one), `handleClose` and `connectDestroyed` after their connection callback, the loop of
    `~TcpServer`, `handleEventWithGuard`, and `Acceptor::handleRead`. -/
inductive Frame where
  | user (conn : Option Nat)
  | closing (conn : Nat)
  | destroying (conn : Nat)
  | destructor (rest : List Nat)
  | event (conn : Nat) (callbacks : List EventCallback)
  | accepting (server : Nat)
  deriving DecidableEq, Repr

/-- The connections whose shared pointers a call keeps. -/
def Frame.conns : Frame → List Nat
  | .user conn => conn.toList
  | .closing conn | .destroying conn | .event conn _ => [conn]
  | .destructor rest => rest
  | .accepting _ => []

inductive Phase where
  | polling
  | dispatching (pending : List (ChannelRef × Revents))
  | draining
  deriving DecidableEq, Repr

inductive Call where
  | connected
  | message
  | disconnected
  deriving DecidableEq, Repr

/-- The objects that exist and who holds them. A connection is owned by shared pointers: in the map of its
    server, in functors, on the stack, and in `user`, which the user keeps. An acceptor that listens and a
    UDP socket are given by their channels. `log` is history. `failed`, `misplaced` and `abandoned` record that
    an assertion did not hold: in the member functions of a connection, of `removeConnectionInLoop`, and of
    `~TcpConnection`; `dangling` records a `handleEvent` on a channel that does not exist. -/
structure World where
  conns : Nat → Option TcpConnection
  servers : Nat → Option (TcpServer Nat)
  acceptors : Nat → Option Channel
  udps : Nat → Option Channel
  nextConn : Nat
  nextServer : Nat
  nextUdp : Nat
  user : List Nat
  queue : List Functor
  phase : Phase
  stack : List Frame
  log : Nat → List Call
  failed : Bool
  misplaced : Bool
  abandoned : Bool
  dangling : Bool

/-- Before `loop()` is called; the user sets things up. -/
def World.initial : World :=
  { conns := fun _ => none, servers := fun _ => none, acceptors := fun _ => none, udps := fun _ => none,
    nextConn := 0, nextServer := 0, nextUdp := 0, user := [], queue := [], phase := .polling,
    stack := [.user none], log := fun _ => [], failed := false, misplaced := false, abandoned := false,
    dangling := false }

namespace World

def pending (w : World) : List (ChannelRef × Revents) :=
  match w.phase with
  | .dispatching pending => pending
  | .polling | .draining => []

def lists (w : World) (server conn : Nat) : Bool :=
  match w.servers server with
  | none => false
  | some found => found.connections.entries.any fun entry => entry.2 == conn

def listed (w : World) (conn : Nat) : Bool := (List.range w.nextServer).any fun server => w.lists server conn

def queued (w : World) (conn : Nat) : Bool := w.queue.any fun functor => functor.conn == some conn

def onStack (w : World) (conn : Nat) : Bool := w.stack.any fun frame => frame.conns.contains conn

/-- Some shared pointer to the connection is left. -/
def held (w : World) (conn : Nat) : Bool :=
  w.listed conn || w.queued conn || w.onStack conn || w.user.contains conn

/-- Connections nobody holds any more are destroyed, and their channels with them. -/
def collect (w : World) : World :=
  { w with
    conns := fun conn => if w.held conn then w.conns conn else none
    abandoned := w.abandoned || (List.range w.nextConn).any fun conn =>
      match w.conns conn with
      | none => false
      | some found => !w.held conn && found.state != .kDisconnected }

def push (w : World) (frame : Frame) : World := { w with stack := frame :: w.stack }

def pop (w : World) : World := { w with stack := w.stack.tail }

def enqueue (w : World) (functors : List Functor) : World := { w with queue := w.queue ++ functors }

def setConn (w : World) (id : Nat) (conn : TcpConnection) : World :=
  { w with conns := Function.update w.conns id (some conn), failed := w.failed || conn.failed }

def callback (w : World) (id : Nat) (call : Call) : World :=
  { w with log := Function.update w.log id (w.log id ++ [call]), stack := .user (some id) :: w.stack }

def reply (w : World) (id : Nat) (reply : Reply) : World :=
  let w := (w.setConn id reply.conn).enqueue (reply.tasks.map (.task id))
  match reply.next with
  | .done => w
  | .message => w.callback id .message
  | .closing => (w.push (.closing id)).callback id .disconnected

def connectDestroyed (w : World) (id : Nat) (conn : TcpConnection) : World :=
  if conn.state ≠ .kDisconnected then
    ((w.setConn id conn.disconnect).push (.destroying id)).callback id .disconnected
  else w.setConn id conn.release

/-- `closeCallback_`, which does nothing once its server is destroyed. -/
def closeCallback (w : World) (id : Nat) (conn : TcpConnection) : World :=
  match conn.closeCallback with
  | none => w
  | some owner =>
    match w.servers owner with
    | none => w
    | some server =>
      { w with
        servers := Function.update w.servers owner (some (server.removeConnectionInLoop conn.name))
        misplaced := w.misplaced || decide (server.erased conn.name ≠ 1) }.enqueue [.connectDestroyed id]

/-- `~Acceptor`, once neither its server nor a running `handleRead` has it. The cleanup keeps the channel in a
    functor. -/
def dropAcceptor (w : World) (server : Nat) : World :=
  if (w.servers server).isSome || w.stack.contains (.accepting server) || (w.acceptors server).isNone then w
  else { w with acceptors := Function.update w.acceptors server none }.enqueue [.keepAcceptor server]

/-- `newConnection` with `connectEstablished`; without its server the acceptor closes the descriptor. -/
def newConnection (w : World) (owner : Nat) (sockfd : Nat) : World :=
  match w.servers owner with
  | none => w
  | some server =>
    let id := w.nextConn
    let conn := { TcpConnection.create server.nextName sockfd with closeCallback := some owner }
    ({ w with
      servers := Function.update w.servers owner (some (server.newConnection id))
      nextConn := id + 1 }.setConn id conn.connectEstablished).callback id .connected

/-- `~TcpServer`. -/
def destroyServer (w : World) (owner : Nat) (server : TcpServer Nat) : World :=
  ({ w with servers := Function.update w.servers owner none }.dropAcceptor owner).push
    (.destructor (server.connections.entries.map Sigma.snd))

/-- `cleanupUdpSocket`. -/
def destroyUdp (w : World) (socket : Nat) : World :=
  { w with udps := Function.update w.udps socket none }.enqueue [.keepUdp socket]

def alive (w : World) : ChannelRef → Bool
  | .connection conn => (w.conns conn).isSome
  | .acceptor server => (w.acceptors server).isSome || w.queue.contains (.keepAcceptor server)
  | .udp socket => (w.udps socket).isSome || w.queue.contains (.keepUdp socket)
  | .loop => true

/-- The channel is in the epoll set, so that `epoll_wait` may report it. -/
def registered (w : World) : ChannelRef → Bool
  | .connection conn => ((w.conns conn).bind fun found => found.channel.epoll).isSome
  | .acceptor server => ((w.acceptors server).bind Channel.epoll).isSome
  | .udp socket => ((w.udps socket).bind Channel.epoll).isSome
  | .loop => true

end World

structure Io where
  read : ReadResult
  write : WriteResult
  socketError : Nat
  accepted : Option Nat
  deriving DecidableEq, Repr

inductive UserCall where
  | ret
  | hold (conn : Nat)
  | send (conn : Nat) (data : List UInt8) (result : WriteResult)
  | sendBuffer (conn : Nat) (data : List UInt8) (result : WriteResult)
  | shutdown (conn : Nat)
  | queueInLoop
  | createServer (name : Bytes)
  | start (server : Nat)
  | destroyServer (server : Nat)
  | createUdp
  | startReceive (socket : Nat)
  | stopReceive (socket : Nat)
  | destroyUdp (socket : Nat)
  deriving DecidableEq, Repr

/-- `release` is the end of a pointer the user keeps, on any thread. -/
inductive Action where
  | poll (batch : List (ChannelRef × Revents))
  | dispatch
  | resume (io : Io)
  | call (call : UserCall)
  | finish
  | drain (functor : Functor) (io : Io)
  | release (conn : Nat)
  | sendElsewhere (conn : Nat) (data : List UInt8)
  | shutdownElsewhere (conn : Nat)
  deriving DecidableEq, Repr

namespace World

/-- `Channel::handleEvent`. -/
def handleEvent (w : World) (ref : ChannelRef) (revents : Revents) : World :=
  if w.alive ref then
    match ref with
    | .connection id =>
      match w.conns id with
      | none => w
      | some conn =>
        let w := w.push (.event id revents.callbacks)
        if revents.hangup then w.reply id conn.handleClose else w
    | .acceptor server =>
      if (w.acceptors server).isSome && revents.callbacks.contains .read then w.push (.accepting server) else w
    | .udp socket => if (w.udps socket).isSome && revents.callbacks.contains .read then w.push (.user none) else w
    | .loop => w.push (.user none)
  else { w with dangling := true }

def runCallback (conn : TcpConnection) (io : Io) : EventCallback → Reply
  | .error => conn.handleSocketError io.socketError
  | .read => conn.handleRead io.read
  | .write => conn.handleWrite io.write

def resume (w : World) (io : Io) : Option World :=
  match w.stack with
  | .event _ [] :: _ => some w.pop
  | .event id (next :: rest) :: below =>
    (w.conns id).map fun conn => { w with stack := .event id rest :: below }.reply id (runCallback conn io next)
  | .closing id :: _ => (w.conns id).map fun conn => w.pop.closeCallback id conn
  | .destroying id :: _ => (w.conns id).map fun conn => w.pop.setConn id conn.release
  | .destructor [] :: _ => some w.pop
  | .destructor (id :: rest) :: below =>
    (w.conns id).map fun conn =>
      { w with stack := .destructor rest :: below }.connectDestroyed id { conn with closeCallback := none }
  | .accepting server :: _ =>
    match io.accepted with
    | some sockfd => some (w.newConnection server sockfd)
    | none => some (w.pop.dropAcceptor server)
  | .user _ :: _ | [] => none

/-- The user has a pointer to the connection, kept or passed to a callback that is running. -/
def accessible (w : World) (conn : Nat) : Bool := w.user.contains conn || w.stack.contains (.user (some conn))

def callConn (w : World) (id : Nat) (operation : TcpConnection → Reply) : Option World :=
  if w.accessible id then (w.conns id).map fun conn => w.reply id (operation conn) else none

def userCall (w : World) : UserCall → Option World
  | .ret => some w.pop
  | .hold id => if w.accessible id then some { w with user := id :: w.user } else none
  | .send id data result => w.callConn id fun conn => conn.send data result
  | .sendBuffer id data result => w.callConn id fun conn => conn.sendBuffer data result
  | .shutdown id => w.callConn id fun conn => { conn := conn.shutdown }
  | .queueInLoop => some (w.enqueue [.user])
  | .createServer name =>
    some { w with
      servers := Function.update w.servers w.nextServer (some (.create name))
      nextServer := w.nextServer + 1 }
  | .start server =>
    if (w.servers server).isSome && (w.acceptors server).isNone then
      some { w with acceptors := Function.update w.acceptors server (some Channel.create.tie.enableReading) }
    else none
  | .destroyServer owner => (w.servers owner).map (w.destroyServer owner)
  | .createUdp =>
    some { w with udps := Function.update w.udps w.nextUdp (some .create), nextUdp := w.nextUdp + 1 }
  | .startReceive socket =>
    (w.udps socket).map fun channel =>
      { w with udps := Function.update w.udps socket (some channel.enableReading) }
  | .stopReceive socket =>
    (w.udps socket).map fun channel =>
      { w with udps := Function.update w.udps socket (some channel.disableReading) }
  | .destroyUdp socket => if (w.udps socket).isSome then some (w.destroyUdp socket) else none

def run (w : World) (io : Io) : Functor → Option World
  | .connectDestroyed id => (w.conns id).map (w.connectDestroyed id)
  | .send id data => (w.conns id).map fun conn => w.reply id (conn.sendBuffer data io.write)
  | .shutdown id => (w.conns id).map fun conn => w.setConn id conn.shutdown
  | .task id _ => some (w.push (.user (some id)))
  | .keepAcceptor _ | .keepUdp _ => some w
  | .user => some (w.push (.user none))

/-- A call from another thread, which does nothing unless the connection is in `kConnected`. -/
def elsewhere (w : World) (id : Nat) (functor : Functor) : Option World :=
  if w.user.contains id then
    (w.conns id).map fun conn => if conn.state = .kConnected then w.enqueue [functor] else w
  else none

/-- A step, before what nobody holds any more is destroyed. -/
def move (w : World) : Action → Option World
  | .poll batch =>
    if w.stack = [] ∧ w.phase = .polling ∧ batch.all fun entry => w.registered entry.1 then
      some { w with phase := .dispatching batch }
    else none
  | .dispatch =>
    match w.stack, w.phase with
    | [], .dispatching ((ref, revents) :: rest) =>
      some ({ w with phase := .dispatching rest }.handleEvent ref revents)
    | _, _ => none
  | .resume io => w.resume io
  | .call call =>
    match w.stack with
    | .user _ :: _ => w.userCall call
    | _ => none
  | .finish =>
    match w.stack, w.phase with
    | [], .dispatching [] => some { w with phase := .draining }
    | [], .draining => some { w with phase := .polling }
    | _, _ => none
  | .drain functor io =>
    if w.stack = [] ∧ w.phase = .draining ∧ functor ∈ w.queue then
      { w with queue := w.queue.erase functor }.run io functor
    else none
  | .release id => if w.user.contains id then some { w with user := w.user.erase id } else none
  | .sendElsewhere id data => w.elsewhere id (.send id data)
  | .shutdownElsewhere id => w.elsewhere id (.shutdown id)

end World

def step (w : World) (action : Action) : Option World := (w.move action).map World.collect

/-- Two connections are accepted, and the user keeps a pointer to the second. -/
def twoConnections : List Action :=
  let nothing : Io := ⟨.data [], .wrote 0, 0, none⟩
  [.call (.createServer [101]), .call (.start 0), .call .ret,
    .poll [(.acceptor 0, { epollin := true })], .dispatch,
    .resume { nothing with accepted := some 5 }, .call .ret,
    .resume { nothing with accepted := some 6 }, .call (.hold 1), .call .ret, .resume nothing, .finish, .finish]

end Hvnetpp.Reactor
