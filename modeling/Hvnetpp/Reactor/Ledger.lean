import Mathlib.Algebra.BigOperators.Group.Finset.Basic
import Hvnetpp.Reactor.Upkeep
import Hvnetpp.Server.Acceptor

namespace Hvnetpp.Ledger

open Machine Server Tcp Reactor

/-- The functors of a `TcpServer` itself: of `start`, of `cleanupAcceptor`, and the one that only holds the channel. -/
inductive Job where
  | start (server : Nat)
  | cleanup (acceptChannel : Option Channel) (acceptSocket idleFd : Option Nat)
  | keep (acceptChannel : Channel)
  deriving DecidableEq, Repr

/-- What `accept` comes to in `handleRead`; after `EMFILE`, whether the second `accept` and `openIdleFd` succeed. -/
inductive AcceptResult where
  | connection
  | again
  | emfile (accepted reopened : Bool)
  | failed
  deriving DecidableEq, Repr

/-- The connections and servers with the acceptors of the servers, by the number of the server, the functors of
    servers that wait, and the descriptors of the process. The acceptors of `world` are not used. `early` records
    that a descriptor was closed while its channel was in `channels_` or in the epoll set. -/
structure State where
  world : World
  acceptors : Nat → Option Acceptor
  jobs : List Job
  descriptors : Descriptors
  early : Bool

def State.initial : State :=
  { world := .initial, acceptors := fun _ => none, jobs := [], descriptors := .none, early := false }

/-- How often the step from `w` to `v` closes the descriptor for a connection. -/
def closed (w v : World) (fd : Nat) : Nat :=
  ∑ id ∈ Finset.range w.nextConn, if w.descriptor id = some fd ∧ v.descriptor id = none then 1 else 0

/-- Some descriptor is closed in the step while its channel, as `channel` has it, is registered. -/
def closedEarly (w v : World) (channel : TcpConnection → Channel) : Bool :=
  (List.range w.nextConn).any fun id =>
    (w.descriptor id).isSome && (v.descriptor id).isNone && (w.conns id).any fun conn => (channel conn).registered

namespace State

/-- A step of the loop, and what nobody holds any more is destroyed. Descriptors of connections are closed by
    `closeSocket`: `connectDestroyed` calls it after `channel_->remove()`, `~TcpConnection` at once. -/
def settle (s : State) (moved : World) : State :=
  { s with
    world := moved.collect
    descriptors := { s.descriptors with
      closings := fun fd => s.descriptors.closings fd + closed s.world moved fd + closed moved moved.collect fd }
    early := s.early || closedEarly s.world moved (fun conn => conn.channel.remove) ||
      closedEarly moved moved.collect TcpConnection.channel }

/-- The body of the lambda in `cleanupAcceptor`. -/
def cleanup (s : State) (acceptChannel : Option Channel) (acceptSocket idleFd : Option Nat) : State :=
  let removed := acceptChannel.map fun channel => channel.disableAll.remove
  { s with
    jobs := s.jobs ++ removed.toList.map .keep
    descriptors := (s.descriptors.closeOpen acceptSocket).closeOpen idleFd
    early := s.early || acceptSocket.isSome && removed.any Channel.registered }

/-- The acceptor is held by its server, by a running `handleRead` or by a functor of `start`. -/
def anchored (s : State) (server : Nat) : Bool :=
  (s.world.servers server).isSome || s.world.stack.contains (.accepting server) || s.jobs.contains (.start server)

/-- `~Acceptor`, once nobody holds the acceptor any more. -/
def releaseAcceptor (s : State) (server : Nat) (inLoopThread : Bool) : State :=
  match s.acceptors server with
  | none => s
  | some acceptor =>
    if s.anchored server then s
    else
      let s := { s with acceptors := Function.update s.acceptors server none }
      if inLoopThread then s.cleanup acceptor.acceptChannel acceptor.acceptSocket acceptor.idleFd
      else { s with jobs := s.jobs ++ [.cleanup acceptor.acceptChannel acceptor.acceptSocket acceptor.idleFd] }

/-- A member function of the acceptor that may obtain and close descriptors. -/
def onAcceptor (s : State) (server : Nat) (operation : Acceptor → Descriptors → Acceptor × Descriptors) : State :=
  match s.acceptors server with
  | none => s
  | some acceptor =>
    let (acceptor, descriptors) := operation acceptor s.descriptors
    { s with acceptors := Function.update s.acceptors server (some acceptor), descriptors := descriptors }

def listen (s : State) (server : Nat) (result : ListenResult) : State :=
  s.onAcceptor server fun acceptor descriptors => (acceptor.listen descriptors result).2

/-- `newConnectionCallback_`, which closes the descriptor if the server is destroyed. -/
def newConnection (s : State) (server : Nat) : State :=
  let opened := { s with descriptors := s.descriptors.acquire }
  if (s.world.servers server).isSome then opened.settle (s.world.newConnection server s.descriptors.obtained)
  else { opened with descriptors := opened.descriptors.close s.descriptors.obtained }

/-- `handleRead` returns, and `handleEvent` gives up its pointer to the acceptor. -/
def leaveRead (s : State) (server : Nat) : State := (s.settle s.world.pop).releaseAcceptor server true

def handleRead (s : State) (server : Nat) : AcceptResult → State
  | .connection => s.newConnection server
  | .again | .failed => s.leaveRead server
  | .emfile accepted reopened =>
    (s.onAcceptor server fun acceptor descriptors => acceptor.shed descriptors accepted reopened).leaveRead server

def createServer (s : State) (name : Bytes) (opened : Bool) : State :=
  let (acceptor, descriptors) := Acceptor.create s.descriptors opened
  { s with
    world := { s.world with
      servers := Function.update s.world.servers s.world.nextServer (some (.create name))
      nextServer := s.world.nextServer + 1 }
    acceptors := Function.update s.acceptors s.world.nextServer (some acceptor)
    descriptors := descriptors }

/-- A functor is executed. That of `start` listens unless the server is destroyed, and gives up the acceptor. -/
def run (s : State) (result : ListenResult) : Job → State
  | .start server =>
    (if (s.world.servers server).isSome then s.listen server result else s).releaseAcceptor server true
  | .cleanup acceptChannel acceptSocket idleFd => s.cleanup acceptChannel acceptSocket idleFd
  | .keep _ => s

end State

/-- `setCloseCallback` with an empty callback. -/
def clearCallback (conn : TcpConnection) : TcpConnection := { conn with closeCallback := none }

/-- `~TcpServer` on another thread: `connectDestroyed` of every connection is left to the loop. -/
def destroyElsewhere (w : World) (owner : Nat) (server : TcpServer Nat) : World :=
  let members := server.connections.entries.map Sigma.snd
  { w with
    servers := Function.update w.servers owner none
    conns := fun id => if id ∈ members then (w.conns id).map clearCallback else w.conns id }.enqueue
    (members.map .connectDestroyed)

/-- `start`, `destroy` and `readable` are of the loop thread, `startElsewhere` and `destroyElsewhere` of others.
    `reactor` is any step that concerns the connections only. -/
inductive Action where
  | reactor (action : Reactor.Action)
  | createServer (name : Bytes) (opened : Bool)
  | start (server : Nat) (result : ListenResult)
  | startElsewhere (server : Nat)
  | readable (server : Nat)
  | accept (result : AcceptResult)
  | destroy (server : Nat)
  | destroyElsewhere (server : Nat)
  | run (index : Nat) (result : ListenResult)
  deriving DecidableEq, Repr

/-- Nothing is assumed of the order in which functors are executed, of when the listening channel is reported, and
    of what `start` finds in `state_`. -/
def step (s : State) : Action → Option State
  | .reactor action => if Plain s.world action then (s.world.move action).map s.settle else none
  | .createServer name opened => some (s.createServer name opened)
  | .start server result =>
    match s.world.stack with
    | .user _ :: _ => if (s.world.servers server).isSome then some (s.listen server result) else none
    | _ => none
  | .startElsewhere server =>
    if (s.world.servers server).isSome then some { s with jobs := s.jobs ++ [.start server] } else none
  | .readable server =>
    if s.world.stack = [] ∧ ((s.acceptors server).bind Acceptor.acceptChannel).isSome then
      some (s.settle (s.world.push (.accepting server)))
    else none
  | .accept result =>
    match s.world.stack with
    | .accepting server :: _ => some (s.handleRead server result)
    | _ => none
  | .destroy server =>
    match s.world.stack with
    | .user _ :: _ =>
      (s.world.servers server).map fun found =>
        (s.settle (s.world.destroyServer server found)).releaseAcceptor server true
    | _ => none
  | .destroyElsewhere server =>
    (s.world.servers server).map fun found =>
      (s.settle (Ledger.destroyElsewhere s.world server found)).releaseAcceptor server false
  | .run index result =>
    if s.world.stack = [] then
      s.jobs[index]?.map fun job => { s with jobs := s.jobs.eraseIdx index }.run result job
    else none

end Hvnetpp.Ledger
