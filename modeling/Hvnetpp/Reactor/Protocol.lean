import Hvnetpp.Machine.Segment
import Hvnetpp.Reactor.Model
import Hvnetpp.Tcp.Lifecycle

namespace Hvnetpp.Reactor

open Machine Server Tcp

variable {w v u : World} {id : Nat} {conn conn' : TcpConnection}

/-- The place of a state in the order connecting, connected, disconnecting, disconnected. -/
def rank : StateE → Nat
  | .kConnecting => 0
  | .kConnected => 1
  | .kDisconnecting => 2
  | .kDisconnected => 3

/-- What the user has seen of a connection: its establishment, messages, and the end if it is `closed`. -/
def Shape (log : List Call) (closed : Bool) : Prop :=
  ∃ messages, log = .connected :: (List.replicate messages .message ++ if closed then [.disconnected] else [])

theorem Shape.message {log : List Call} (shape : Shape log false) : Shape (log ++ [.message]) false := by
  obtain ⟨messages, rfl⟩ := shape
  refine ⟨messages + 1, ?_⟩
  simp [List.replicate_succ']

theorem Shape.close {log : List Call} (shape : Shape log false) : Shape (log ++ [.disconnected]) true := by
  obtain ⟨messages, rfl⟩ := shape
  exact ⟨messages, by simp⟩

theorem Shape.counts {log : List Call} {closed : Bool} (shape : Shape log closed) :
    log.count .connected = 1 ∧ log.count .disconnected ≤ 1 := by
  obtain ⟨messages, rfl⟩ := shape
  cases closed <;> simp [List.count_append, List.count_replicate]

theorem Shape.last {log before after : List Call} {closed : Bool} (shape : Shape log closed)
    (split : log = before ++ .disconnected :: after) : after = [] := by
  obtain ⟨messages, rfl⟩ := shape
  cases closed with
  | false =>
    have member : Call.disconnected ∈ before ++ .disconnected :: after := by simp
    rw [← split] at member
    simp at member
  | true =>
    have absent : Call.disconnected ∉ Call.connected :: List.replicate messages Call.message := by simp
    exact (split_at_end absent split).2

structure Protocol (w : World) : Prop where
  shaped : ∀ id conn, w.conns id = some conn → conn.state ≠ .kConnecting ∧ conn.failed = false ∧
    Shape (w.log id) (decide (conn.state = .kDisconnected))
  past : ∀ id, id < w.nextConn → ∃ closed, Shape (w.log id) closed
  fresh : ∀ id, w.nextConn ≤ id → w.conns id = none ∧ w.log id = []
  sound : w.failed = false

/-- No connection goes back to an earlier state, and none comes back once it is destroyed. -/
structure Forward (w v : World) : Prop where
  created : w.nextConn ≤ v.nextConn
  moves : ∀ id conn', id < w.nextConn → v.conns id = some conn' →
    ∃ conn, w.conns id = some conn ∧ rank conn.state ≤ rank conn'.state

theorem Forward.refl (w : World) : Forward w w :=
  ⟨Nat.le_refl _, fun _ conn _ present => ⟨conn, present, Nat.le_refl _⟩⟩

theorem Forward.trans (first : Forward w v) (second : Forward v u) : Forward w u := by
  refine ⟨Nat.le_trans first.created second.created, ?_⟩
  intro id last old present
  obtain ⟨middle, found, less⟩ := second.moves id last (Nat.lt_of_lt_of_le old first.created) present
  obtain ⟨conn, original, less'⟩ := first.moves id middle old found
  exact ⟨conn, original, Nat.le_trans less' less⟩

structure Turn (w v : World) : Prop where
  protocol : Protocol v
  forward : Forward w v

theorem Turn.trans (first : Turn w v) (second : Turn v u) : Turn w u :=
  ⟨second.protocol, first.forward.trans second.forward⟩

theorem Protocol.still (protocol : Protocol w) (conns : v.conns = w.conns) (log : v.log = w.log)
    (nextConn : v.nextConn = w.nextConn) (failed : v.failed = w.failed) : Turn w v := by
  refine ⟨⟨?_, ?_, ?_, ?_⟩, ⟨nextConn.ge, ?_⟩⟩
  · rw [conns, log]
    exact protocol.shaped
  · rw [nextConn, log]
    exact protocol.past
  · rw [nextConn, conns, log]
    exact protocol.fresh
  · rw [failed]
    exact protocol.sound
  · rw [conns]
    exact (Forward.refl w).moves

/-- The moves of `state_` with the calls that go with them. -/
inductive Moves : StateE → List Call → StateE → Prop where
  | stays (state : StateE) : Moves state [] state
  | shuts : Moves .kConnected [] .kDisconnecting
  | message {state : StateE} (live : state = .kConnected ∨ state = .kDisconnecting) : Moves state [.message] state
  | closes {state : StateE} (live : state = .kConnected ∨ state = .kDisconnecting) :
      Moves state [.disconnected] .kDisconnected

theorem Moves.forward {before after : StateE} {calls : List Call} (moves : Moves before calls after) :
    rank before ≤ rank after := by
  cases moves with
  | stays => exact Nat.le_refl _
  | shuts => decide
  | message => exact Nat.le_refl _
  | closes live => rcases live with rfl | rfl <;> decide

theorem Moves.shape {before after : StateE} {calls log : List Call} (moves : Moves before calls after)
    (established : before ≠ .kConnecting) (shape : Shape log (decide (before = .kDisconnected))) :
    after ≠ .kConnecting ∧ Shape (log ++ calls) (decide (after = .kDisconnected)) := by
  cases moves with
  | stays =>
    rw [List.append_nil]
    exact ⟨established, shape⟩
  | shuts =>
    rw [List.append_nil]
    exact ⟨by decide, shape⟩
  | message live => rcases live with rfl | rfl <;> exact ⟨by decide, shape.message⟩
  | closes live => rcases live with rfl | rfl <;> exact ⟨by decide, shape.close⟩

theorem Protocol.moved (protocol : Protocol w) (present : w.conns id = some conn) {calls : List Call}
    (moves : Moves conn.state calls conn'.state) (unfailed : conn'.failed = conn.failed)
    (conns : v.conns = Function.update w.conns id (some conn'))
    (log : v.log = Function.update w.log id (w.log id ++ calls)) (nextConn : v.nextConn = w.nextConn)
    (failed : v.failed = (w.failed || conn'.failed)) : Turn w v := by
  obtain ⟨established, sound, shape⟩ := protocol.shaped id conn present
  obtain ⟨established', shape'⟩ := moves.shape established shape
  have known : id < w.nextConn := by
    by_contra unknown
    rw [(protocol.fresh id (Nat.not_lt.mp unknown)).1] at present
    cases present
  refine ⟨⟨?_, ?_, ?_, ?_⟩, ⟨nextConn.ge, ?_⟩⟩
  · intro other found at_
    rw [conns] at at_
    rw [log]
    by_cases own : other = id
    · subst own
      rw [Function.update_self] at at_ ⊢
      cases at_
      exact ⟨established', unfailed.trans sound, shape'⟩
    · rw [Function.update_of_ne own] at at_ ⊢
      exact protocol.shaped other found at_
  · intro other old
    rw [nextConn] at old
    rw [log]
    by_cases own : other = id
    · subst own
      rw [Function.update_self]
      exact ⟨_, shape'⟩
    · rw [Function.update_of_ne own]
      exact protocol.past other old
  · intro other new
    rw [nextConn] at new
    have own : other ≠ id := by omega
    rw [conns, log, Function.update_of_ne own, Function.update_of_ne own]
    exact protocol.fresh other new
  · rw [failed, protocol.sound, unfailed, sound]
    rfl
  · intro other found _ at_
    rw [conns] at at_
    by_cases own : other = id
    · subst own
      rw [Function.update_self] at at_
      cases at_
      exact ⟨conn, present, moves.forward⟩
    · rw [Function.update_of_ne own] at at_
      exact ⟨found, at_, Nat.le_refl _⟩

def Next.calls : Next → List Call
  | .done => []
  | .message => [.message]
  | .closing => [.disconnected]

theorem reply_frame (w : World) (id : Nat) (reply : Reply) :
    (w.reply id reply).conns = Function.update w.conns id (some reply.conn) ∧
    (w.reply id reply).log = Function.update w.log id (w.log id ++ Next.calls reply.next) ∧
    (w.reply id reply).nextConn = w.nextConn ∧ (w.reply id reply).failed = (w.failed || reply.conn.failed) := by
  unfold World.reply
  cases reply.next with
  | done => exact ⟨rfl, by simp [Next.calls, World.setConn, World.enqueue], rfl, rfl⟩
  | message => exact ⟨rfl, rfl, rfl, rfl⟩
  | closing => exact ⟨rfl, rfl, rfl, rfl⟩

/-- The reply makes a move of the protocol and fails no assertion. -/
structure Follows (conn : TcpConnection) (reply : Reply) : Prop where
  moves : Moves conn.state (Next.calls reply.next) reply.conn.state
  unfailed : reply.conn.failed = conn.failed

theorem Follows.of_legal {reply : Reply} (legal : Legal conn reply) : Follows conn reply := by
  cases legal with
  | done next state unfailed =>
    refine ⟨?_, unfailed⟩
    rw [next, state]
    exact .stays _
  | message next live state unfailed =>
    refine ⟨?_, unfailed⟩
    rw [next, state]
    exact .message live
  | closing next live state unfailed =>
    refine ⟨?_, unfailed⟩
    rw [next, state]
    exact .closes live

theorem Protocol.reply (protocol : Protocol w) (present : w.conns id = some conn) {reply : Reply}
    (follows : Follows conn reply) : Turn w (w.reply id reply) := by
  obtain ⟨conns, log, nextConn, failed⟩ := reply_frame w id reply
  exact protocol.moved present follows.moves follows.unfailed conns log nextConn failed

theorem Protocol.setConn (protocol : Protocol w) (present : w.conns id = some conn)
    (moves : Moves conn.state [] conn'.state) (unfailed : conn'.failed = conn.failed) :
    Turn w (w.setConn id conn') :=
  protocol.moved present moves unfailed rfl (by simp [World.setConn]) rfl rfl

theorem Follows.shutdown (conn : TcpConnection) : Follows conn { conn := conn.shutdown } := by
  unfold TcpConnection.shutdown TcpConnection.shutdownInLoop
  split
  · rename_i connected
    have moves : Moves conn.state [] .kDisconnecting := connected ▸ .shuts
    split <;> exact ⟨moves, rfl⟩
  · exact ⟨.stays _, rfl⟩

theorem release_moves (conn : TcpConnection) :
    Moves conn.state [] conn.release.state ∧ conn.release.failed = conn.failed := by
  unfold TcpConnection.release TcpConnection.closeSocket
  split <;> exact ⟨.stays _, rfl⟩

theorem Protocol.connectDestroyed (protocol : Protocol w) (present : w.conns id = some conn)
    (state : conn'.state = conn.state) (unfailed : conn'.failed = conn.failed) :
    Turn w (w.connectDestroyed id conn') := by
  have established := (protocol.shaped id conn present).1
  unfold World.connectDestroyed
  split
  · rename_i on
    have live : conn.live := live_of_ne established (state ▸ on)
    have moves : Moves conn.state [.disconnected] conn'.disconnect.state := .closes live
    exact protocol.moved present moves unfailed rfl rfl rfl rfl
  · obtain ⟨moves, sound⟩ := release_moves conn'
    rw [state] at moves
    exact protocol.setConn present moves (sound.trans unfailed)

theorem Protocol.closeCallback (protocol : Protocol w) : Turn w (w.closeCallback id conn) := by
  unfold World.closeCallback
  split
  · exact protocol.still rfl rfl rfl rfl
  · split <;> exact protocol.still rfl rfl rfl rfl

theorem Protocol.dropAcceptor (protocol : Protocol w) (server : Nat) : Turn w (w.dropAcceptor server) := by
  unfold World.dropAcceptor
  split <;> exact protocol.still rfl rfl rfl rfl

theorem Protocol.newConnection (protocol : Protocol w) (owner sockfd : Nat) :
    Turn w (w.newConnection owner sockfd) := by
  unfold World.newConnection
  split
  · exact protocol.still rfl rfl rfl rfl
  · have unused := protocol.fresh w.nextConn (Nat.le_refl _)
    refine ⟨⟨?_, ?_, ?_, ?_⟩, ⟨Nat.le_succ _, ?_⟩⟩
    · intro id conn present
      simp only [World.callback, World.setConn] at present ⊢
      by_cases own : id = w.nextConn
      · subst own
        rw [Function.update_self] at present ⊢
        cases present
        refine ⟨show StateE.kConnected ≠ .kConnecting by decide, rfl, 0, ?_⟩
        rw [unused.2]
        rfl
      · rw [Function.update_of_ne own] at present ⊢
        exact protocol.shaped id conn present
    · intro id old
      simp only [World.callback, World.setConn]
      by_cases own : id = w.nextConn
      · subst own
        rw [Function.update_self, unused.2]
        exact ⟨false, 0, rfl⟩
      · rw [Function.update_of_ne own]
        simp only [World.callback, World.setConn] at old
        exact protocol.past id (by omega)
    · intro id new
      simp only [World.callback, World.setConn] at new ⊢
      have own : id ≠ w.nextConn := by omega
      rw [Function.update_of_ne own, Function.update_of_ne own]
      exact protocol.fresh id (by omega)
    · simp only [World.callback, World.setConn, protocol.sound]
      rfl
    · intro id conn old present
      simp only [World.callback, World.setConn] at present
      rw [Function.update_of_ne (Nat.ne_of_lt old)] at present
      exact ⟨conn, present, Nat.le_refl _⟩

theorem Protocol.collect (protocol : Protocol w) : Turn w w.collect := by
  have kept : ∀ id conn, w.collect.conns id = some conn → w.conns id = some conn := by
    intro id conn present
    simp only [World.collect] at present
    split at present
    · exact present
    · cases present
  refine ⟨⟨?_, protocol.past, ?_, protocol.sound⟩, ⟨Nat.le_refl _, ?_⟩⟩
  · exact fun id conn present => protocol.shaped id conn (kept id conn present)
  · intro id new
    obtain ⟨none, log⟩ := protocol.fresh id new
    refine ⟨?_, log⟩
    simp only [World.collect, none, ite_self]
  · exact fun id conn _ present => ⟨conn, kept id conn present, Nat.le_refl _⟩

def World.connected (w : World) : ChannelRef → Bool
  | .connection id => (w.conns id).any fun conn => conn.state != .kDisconnected
  | .acceptor _ | .udp _ | .loop => true

/-- A dispatched channel exists, and if the event is a hangup its connection is not disconnected yet. -/
def Proper (w : World) : Action → Prop
  | .dispatch => ∀ entry ∈ w.pending.head?, w.alive entry.1 = true ∧
      (entry.2.hangup = true → w.connected entry.1 = true)
  | .poll _ | .resume _ | .call _ | .finish | .drain _ _ | .release _ | .sendElsewhere _ _
  | .shutdownElsewhere _ => True

instance (w : World) (action : Action) : Decidable (Proper w action) :=
  match action with
  | .dispatch => inferInstanceAs (Decidable (∀ entry ∈ w.pending.head?, w.alive entry.1 = true ∧
      (entry.2.hangup = true → w.connected entry.1 = true)))
  | .poll _ | .resume _ | .call _ | .finish | .drain _ _ | .release _ | .sendElsewhere _ _
  | .shutdownElsewhere _ => isTrue trivial

theorem Protocol.handleEvent (protocol : Protocol w) {ref : ChannelRef} {revents : Revents}
    (proper : revents.hangup = true → w.connected ref = true) : Turn w (w.handleEvent ref revents) := by
  unfold World.handleEvent
  split
  · cases ref with
    | connection id =>
      dsimp only
      split
      · exact protocol.still rfl rfl rfl rfl
      · rename_i conn present
        have pushed : Turn w (w.push (.event id revents.callbacks)) := protocol.still rfl rfl rfl rfl
        split
        · rename_i hangup
          have on : conn.state ≠ .kDisconnected := by simpa [World.connected, present] using proper hangup
          have live := live_of_ne (protocol.shaped id conn present).1 on
          exact pushed.trans (pushed.protocol.reply present (.of_legal (.handleClose live)))
        · exact pushed
    | acceptor server => dsimp only; split <;> exact protocol.still rfl rfl rfl rfl
    | udp socket => dsimp only; split <;> exact protocol.still rfl rfl rfl rfl
    | loop => exact protocol.still rfl rfl rfl rfl
  · exact protocol.still rfl rfl rfl rfl

theorem Protocol.runCallback (protocol : Protocol w) (present : w.conns id = some conn) (io : Io)
    (next : EventCallback) : Legal conn (World.runCallback conn io next) := by
  cases next with
  | error => exact .handleSocketError conn _
  | read => exact .handleRead (protocol.shaped id conn present).1 _
  | write => exact .handleWrite conn _

theorem Protocol.resume (protocol : Protocol w) {io : Io} (taken : w.resume io = some v) : Turn w v := by
  unfold World.resume at taken
  split at taken
  · cases taken
    exact protocol.still rfl rfl rfl rfl
  · rename_i id next rest below _
    obtain ⟨conn, present, rfl⟩ := Option.map_eq_some_iff.mp taken
    have turned : Turn w { w with stack := .event id rest :: below } := protocol.still rfl rfl rfl rfl
    exact turned.trans (turned.protocol.reply present (.of_legal (protocol.runCallback present io next)))
  · obtain ⟨conn, present, rfl⟩ := Option.map_eq_some_iff.mp taken
    have popped : Turn w w.pop := protocol.still rfl rfl rfl rfl
    exact popped.trans popped.protocol.closeCallback
  · obtain ⟨conn, present, rfl⟩ := Option.map_eq_some_iff.mp taken
    have popped : Turn w w.pop := protocol.still rfl rfl rfl rfl
    obtain ⟨moves, unfailed⟩ := release_moves conn
    exact popped.trans (popped.protocol.setConn present moves unfailed)
  · cases taken
    exact protocol.still rfl rfl rfl rfl
  · rename_i id rest below _
    obtain ⟨conn, present, rfl⟩ := Option.map_eq_some_iff.mp taken
    have turned : Turn w { w with stack := .destructor rest :: below } := protocol.still rfl rfl rfl rfl
    exact turned.trans (turned.protocol.connectDestroyed present rfl rfl)
  · split at taken
    · cases taken
      exact protocol.newConnection _ _
    · cases taken
      have popped : Turn w w.pop := protocol.still rfl rfl rfl rfl
      exact popped.trans (popped.protocol.dropAcceptor _)
  · cases taken
  · cases taken

theorem Protocol.callConn (protocol : Protocol w) {operation : TcpConnection → Reply}
    (follows : ∀ conn, Follows conn (operation conn)) (taken : w.callConn id operation = some v) : Turn w v := by
  unfold World.callConn at taken
  split at taken
  · obtain ⟨conn, present, rfl⟩ := Option.map_eq_some_iff.mp taken
    exact protocol.reply present (follows conn)
  · cases taken

theorem Protocol.userCall (protocol : Protocol w) {call : UserCall} (taken : w.userCall call = some v) :
    Turn w v := by
  cases call <;> simp only [World.userCall] at taken
  case send id data result => exact protocol.callConn (fun conn => .of_legal (.send conn data result)) taken
  case sendBuffer id data result =>
    exact protocol.callConn (fun conn => .of_legal (.sendBuffer conn data result)) taken
  case shutdown id => exact protocol.callConn Follows.shutdown taken
  case destroyServer owner =>
    obtain ⟨server, present, rfl⟩ := Option.map_eq_some_iff.mp taken
    have erased : Turn w { w with servers := Function.update w.servers owner none } :=
      protocol.still rfl rfl rfl rfl
    have dropped := erased.trans (erased.protocol.dropAcceptor owner)
    exact dropped.trans (dropped.protocol.still rfl rfl rfl rfl)
  case ret | queueInLoop | createServer name | createUdp =>
    cases taken
    exact protocol.still rfl rfl rfl rfl
  case hold id | start server | destroyUdp socket =>
    split at taken
    · cases taken
      exact protocol.still rfl rfl rfl rfl
    · cases taken
  case startReceive socket | stopReceive socket =>
    obtain ⟨channel, _, rfl⟩ := Option.map_eq_some_iff.mp taken
    exact protocol.still rfl rfl rfl rfl

theorem Protocol.run (protocol : Protocol w) {functor : Functor} {io : Io} (taken : w.run io functor = some v) :
    Turn w v := by
  cases functor <;> simp only [World.run] at taken
  case connectDestroyed id =>
    obtain ⟨conn, present, rfl⟩ := Option.map_eq_some_iff.mp taken
    exact protocol.connectDestroyed present rfl rfl
  case send id data =>
    obtain ⟨conn, present, rfl⟩ := Option.map_eq_some_iff.mp taken
    exact protocol.reply present (.of_legal (.sendBuffer conn data _))
  case shutdown id =>
    obtain ⟨conn, present, rfl⟩ := Option.map_eq_some_iff.mp taken
    exact protocol.setConn present (Follows.shutdown conn).moves (Follows.shutdown conn).unfailed
  case task id task | keepAcceptor server | keepUdp socket | user =>
    cases taken
    exact protocol.still rfl rfl rfl rfl

theorem Protocol.elsewhere (protocol : Protocol w) {functor : Functor} (taken : w.elsewhere id functor = some v) :
    Turn w v := by
  unfold World.elsewhere at taken
  split at taken
  · obtain ⟨conn, _, rfl⟩ := Option.map_eq_some_iff.mp taken
    split <;> exact protocol.still rfl rfl rfl rfl
  · cases taken

theorem Protocol.move (protocol : Protocol w) {action : Action} (proper : Proper w action)
    (taken : w.move action = some v) : Turn w v := by
  cases action <;> simp only [World.move] at taken
  case poll batch =>
    split at taken
    · cases taken
      exact protocol.still rfl rfl rfl rfl
    · cases taken
  case dispatch =>
    split at taken
    · rename_i ref revents rest _ phase
      cases taken
      have turned : Turn w { w with phase := .dispatching rest } := protocol.still rfl rfl rfl rfl
      refine turned.trans (turned.protocol.handleEvent ?_)
      exact (proper (ref, revents) (by rw [World.pending, phase]; rfl)).2
    · cases taken
  case resume io => exact protocol.resume taken
  case call call =>
    split at taken
    · exact protocol.userCall taken
    · cases taken
  case finish =>
    split at taken
    · cases taken
      exact protocol.still rfl rfl rfl rfl
    · cases taken
      exact protocol.still rfl rfl rfl rfl
    · cases taken
  case drain functor io =>
    split at taken
    · have erased : Turn w { w with queue := w.queue.erase functor } := protocol.still rfl rfl rfl rfl
      exact erased.trans (erased.protocol.run taken)
    · cases taken
  case release id =>
    split at taken
    · cases taken
      exact protocol.still rfl rfl rfl rfl
    · cases taken
  case sendElsewhere id data => exact protocol.elsewhere taken
  case shutdownElsewhere id => exact protocol.elsewhere taken

theorem Protocol.initial : Protocol World.initial where
  shaped := by intro id conn present; cases present
  past := by intro id old; cases old
  fresh := fun _ _ => ⟨rfl, rfl⟩
  sound := rfl

theorem Protocol.step (protocol : Protocol w) {action : Action} (proper : Proper w action)
    (taken : Reactor.step w action = some v) : Turn w v := by
  obtain ⟨moved, move, rfl⟩ := Option.map_eq_some_iff.mp taken
  have turn := protocol.move proper move
  exact turn.trans turn.protocol.collect

theorem Protocol.later (protocol : Protocol w) (run : Reaches Reactor.step Proper w v) : Turn w v := by
  refine ⟨run.keeps protocol fun _ _ _ held proper taken => (held.step proper taken).protocol, ?_⟩
  apply run.relates Protocol protocol Forward.refl fun _ _ _ => Forward.trans
  intro before action after held proper taken
  exact ⟨(held.step proper taken).protocol, (held.step proper taken).forward⟩

/-- Every connection that was accepted has been announced once, at most once as disconnected, and has called
    back with no message after that; its state only moves forward; and no assertion on it has failed. -/
theorem callback_protocol (run : Reaches step Proper World.initial w) :
    (∀ id < w.nextConn, (w.log id).count .connected = 1 ∧ (w.log id).count .disconnected ≤ 1 ∧
      ∀ before after, w.log id = before ++ .disconnected :: after → .message ∉ after) ∧
    (∀ v, Reaches step Proper w v → ∀ id conn conn', w.conns id = some conn → v.conns id = some conn' →
      rank conn.state ≤ rank conn'.state) ∧
    w.failed = false := by
  have protocol := (Protocol.initial.later run).protocol
  refine ⟨?_, ?_, protocol.sound⟩
  · intro id old
    obtain ⟨closed, shape⟩ := protocol.past id old
    refine ⟨shape.counts.1, shape.counts.2, ?_⟩
    intro before after split
    rw [shape.last split]
    exact List.not_mem_nil
  · intro v further id conn conn' present present'
    have old : id < w.nextConn := by
      by_contra new
      rw [(protocol.fresh id (Nat.not_lt.mp new)).1] at present
      cases present
    obtain ⟨found, at_, forward⟩ := (protocol.later further).forward.moves id conn' old present'
    rw [present] at at_
    cases at_
    exact forward

/-- A message arrives and then the end of the stream: the second connection hears nothing of it. -/
theorem callback_protocol_stream : ∃ w : World, w.log 0 = [.connected, .message, .disconnected] ∧
    w.log 1 = [.connected] ∧
    ∀ id < 2, (w.log id).count .connected = 1 ∧ (w.log id).count .disconnected ≤ 1 := by
  have ran : (exec (guarded step Proper) World.initial (twoConnections ++
      [.poll [(.connection 0, { epollin := true })], .dispatch, .resume ⟨.data [7], .wrote 0, 0, none⟩,
        .call .ret, .resume ⟨.data [], .wrote 0, 0, none⟩, .finish, .finish,
        .poll [(.connection 0, { epollin := true })], .dispatch, .resume ⟨.data [], .wrote 0, 0, none⟩])).map
      (fun w => (w.log 0, w.log 1, w.nextConn)) =
      some ([.connected, .message, .disconnected], [.connected], 2) := by decide +kernel
  obtain ⟨w, reached, facts⟩ := Option.map_eq_some_iff.mp ran
  simp only [Prod.mk.injEq] at facts
  obtain ⟨first, second, count⟩ := facts
  obtain ⟨logs, _, _⟩ := callback_protocol (exec_guarded_reaches reached)
  refine ⟨w, first, second, fun id less => ?_⟩
  obtain ⟨once, atMost, _⟩ := logs id (count.symm ▸ less)
  exact ⟨once, atMost⟩

/-- A hangup of the second connection is in the same batch as a message of the first, whose callback sends to
    the second and so closes it: the hangup calls `handleClose` once more. -/
theorem hangup_closes_twice : ∃ w : World, Reaches step Any World.initial w ∧ w.dangling = false ∧
    w.failed = true ∧ w.log 1 = [.connected, .disconnected, .disconnected] := by
  have ran : (exec step World.initial (twoConnections ++
      [.poll [(.connection 0, { epollin := true }), (.connection 1, { epollhup := true })], .dispatch,
        .resume ⟨.data [7], .wrote 0, 0, none⟩, .call (.send 1 [9] (.failed EPIPE)), .call .ret,
        .resume ⟨.data [], .wrote 0, 0, none⟩, .call .ret, .resume ⟨.data [], .wrote 0, 0, none⟩,
        .dispatch])).map (fun w => (w.dangling, w.failed, w.log 1)) =
      some (false, true, [.connected, .disconnected, .disconnected]) := by decide +kernel
  obtain ⟨w, reached, facts⟩ := Option.map_eq_some_iff.mp ran
  simp only [Prod.mk.injEq] at facts
  exact ⟨w, exec_reaches reached, facts⟩

end Hvnetpp.Reactor
