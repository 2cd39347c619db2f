import Hvnetpp.Tcp.FlowControl
import Hvnetpp.Tcp.Input

namespace Hvnetpp.Tcp

open Machine

variable {c d : TcpConnection} {s t u : Session}

/-- What an operation adds to the calls on the socket; if it closes the connection, no byte of it was accepted. -/
def Emits (c d : TcpConnection) : Prop :=
  ∃ more, d.syscalls = c.syscalls ++ more ∧ (d.state = .kDisconnected → accepted more = [])

theorem Emits.of_eq (same : d.syscalls = c.syscalls) : Emits c d :=
  ⟨[], by rw [same, List.append_nil], fun _ => rfl⟩

theorem Emits.failed (same : d.syscalls = (c.write []).syscalls) : Emits c d := ⟨[.write []], same, fun _ => rfl⟩

/-- The connection stays in its state. -/
theorem Emits.stays (on : c.state ≠ .kDisconnected) (state : d.state = c.state) {more : List Syscall}
    (calls : d.syscalls = c.syscalls ++ more) : Emits c d := by
  refine ⟨more, calls, fun off => ?_⟩
  rw [state] at off
  exact absurd off on

theorem Emits.sendInLoop (c : TcpConnection) (data : List UInt8) (result : WriteResult) :
    Emits c (c.sendInLoop data result).conn := by
  unfold TcpConnection.sendInLoop
  split
  · exact .of_eq rfl
  · rename_i on
    split
    · split
      · exact .stays on (keep_state _ _ _) (keep_syscalls _ _ _)
      · split
        · exact .failed (handleError_syscalls _ _)
        · exact .failed (keep_syscalls _ _ _)
    · exact .of_eq (keep_syscalls _ _ _)

theorem Emits.sendBuffer (c : TcpConnection) (data : List UInt8) (result : WriteResult) :
    Emits c (c.sendBuffer data result).conn := by
  unfold TcpConnection.sendBuffer
  split
  · exact .sendInLoop c data result
  · exact .of_eq rfl

theorem Emits.shutdown (c : TcpConnection) : Emits c c.shutdown := by
  unfold TcpConnection.shutdown TcpConnection.shutdownInLoop
  split
  · split
    · exact ⟨[.shutdownWrite], rfl, fun _ => rfl⟩
    · exact .of_eq rfl
  · exact .of_eq rfl

theorem Emits.handleWrite {sent contents : List UInt8} (opened : Open c sent contents) (on : c.state ≠ .kDisconnected)
    {result : WriteResult} (possible : result.possible c.outputBuffer.readableBytes = true) :
    Emits c (c.handleWrite result).conn := by
  unfold TcpConnection.handleWrite
  split
  · exact .of_eq rfl
  · match result, possible with
    | .wrote 0, _ => exact .failed (handleError_syscalls _ _)
    | .failed errno, _ => exact .failed (handleError_syscalls _ _)
    | .wrote (n + 1), possible =>
      have le : n + 1 ≤ contents.length := opened.carries.length ▸ of_decide_eq_true possible
      obtain ⟨state, _, calls⟩ := opened.flushed le
      rw [opened.carries.readable]
      rcases calls with ⟨_, _, calls⟩ | ⟨_, calls⟩
      · exact .stays on state (calls.trans (List.append_assoc _ _ _))
      · exact .stays on state calls

theorem Emits.leaves (leaves : Leaves c d) : Emits c d := by
  cases leaves with
  | same _ syscalls _ _ => exact .of_eq syscalls
  | closes _ syscalls => exact .of_eq syscalls

theorem Emits.step (inv : Inv s) {action : Action} (taken : Tcp.step s action = some t) : Emits s.conn t.conn := by
  cases action <;> simp only [Tcp.step] at taken
  case sendInLoop data result =>
    split at taken <;> cases taken
    exact .sendInLoop _ _ _
  case send data result =>
    split at taken <;> cases taken
    rw [send_eq]
    split
    · exact .of_eq rfl
    · exact .sendBuffer _ _ _
  case sendBuffer data result =>
    split at taken <;> cases taken
    exact .sendBuffer _ _ _
  case shutdown =>
    cases taken
    exact .shutdown _
  case handleRead result =>
    cases taken
    exact .leaves (.handleRead _ _)
  case handleWrite result =>
    split at taken
    · rename_i possible
      cases taken
      cases inv with
      | live contents state opened =>
        have on : s.conn.state ≠ .kDisconnected := by rcases state with state | state <;> rw [state] <;> decide
        exact .handleWrite opened on possible
      | closed off _ =>
        rw [closed_handleWrite off]
        exact .of_eq rfl
    · cases taken
  case handleError err =>
    cases taken
    exact .leaves (.handleSocketError _ _)
  case handleClose =>
    cases taken
    exact .leaves (.handleClose _)
  case connectDestroyed =>
    cases taken
    exact .of_eq (connectDestroyed_frame s.conn inv.quiet).2.1

/-- The peer will see the end of the stream: the write side is shut down, or the descriptor closed. -/
def Session.Finished (s : Session) : Prop := .shutdownWrite ∈ s.conn.syscalls ∨ s.conn.socketFd < 0

instance (s : Session) : Decidable s.Finished := inferInstanceAs (Decidable (_ ∨ _))

def TcpConnection.Gone (c : TcpConnection) : Prop := c.state = .kDisconnected ∧ c.socketFd < 0

theorem TcpConnection.Gone.step (gone : s.conn.Gone) {action : Action} (taken : Tcp.step s action = some t) :
    t.conn.Gone := by
  obtain ⟨off, socket⟩ := gone
  cases action <;> simp only [Tcp.step] at taken
  case sendInLoop data result =>
    split at taken <;> cases taken
    rw [closed_sendInLoop off]
    exact ⟨off, socket⟩
  case send data result =>
    split at taken <;> cases taken
    rw [send_eq, closed_sendBuffer off, ite_self]
    exact ⟨off, socket⟩
  case sendBuffer data result =>
    split at taken <;> cases taken
    rw [closed_sendBuffer off]
    exact ⟨off, socket⟩
  case shutdown =>
    cases taken
    rw [closed_shutdown off]
    exact ⟨off, socket⟩
  case handleRead result =>
    cases taken
    rw [closed_handleRead off]
    exact ⟨off, socket⟩
  case handleWrite result =>
    split at taken <;> cases taken
    rw [closed_handleWrite off]
    exact ⟨off, socket⟩
  case handleError err =>
    cases taken
    rw [closed_handleSocketError off]
    exact ⟨off, socket⟩
  case handleClose =>
    cases taken
    simp only [TcpConnection.handleClose, TcpConnection.check]
    split <;> exact ⟨rfl, socket⟩
  case connectDestroyed =>
    cases taken
    have last : ¬ 0 ≤ s.conn.socketFd := by omega
    rw [TcpConnection.connectDestroyed, if_neg (not_not_intro off), TcpConnection.release, TcpConnection.closeSocket,
      if_neg last]
    exact ⟨off, socket⟩

def Action.sends : Action → Bool
  | .sendInLoop _ _ | .send _ _ | .sendBuffer _ _ => true
  | .shutdown | .handleRead _ | .handleWrite _ | .handleError _ | .handleClose | .connectDestroyed => false

theorem sent_kept {action : Action} (other : action.sends = false) (taken : Tcp.step s action = some t) :
    t.sent = s.sent := by
  cases action <;> simp only [Tcp.step] at taken
  case send => cases other
  case sendBuffer => cases other
  case sendInLoop => cases other
  case handleWrite result =>
    split at taken <;> cases taken
    rfl
  all_goals
    cases taken
    rfl

theorem sent_grows {action : Action} (taken : Tcp.step s action = some t) : s.sent <+: t.sent := by
  cases sends : action.sends with
  | false =>
    exact sent_kept sends taken ▸ List.prefix_rfl
  | true =>
    cases action <;> simp only [Action.sends, Bool.false_eq_true] at sends <;> simp only [Tcp.step] at taken
    case sendInLoop data result =>
      split at taken <;> cases taken
      exact List.prefix_append _ _
    all_goals
      split at taken <;> cases taken
      dsimp only
      split
      · exact List.prefix_append _ _
      · exact List.prefix_rfl

/-- The output of a connection in any state. -/
structure Output (s : Session) : Prop where
  inv : Inv s
  shut : Shut s
  within : accepted s.conn.syscalls <+: s.sent

theorem Output.initial (name : List UInt8) (sockfd : Nat) (writeComplete highWater : Bool) (mark : Nat) :
    Output (Session.initial name sockfd writeComplete highWater mark) :=
  ⟨Inv.initial _ _ _ _ _, Shut.initial _ _ _ _ _, List.prefix_rfl⟩

theorem Output.step (output : Output s) {action : Action} (admitted : Public s action)
    (taken : Tcp.step s action = some t) : Output t := by
  have inv := output.inv.step taken
  refine ⟨inv, output.shut.step output.inv admitted taken, ?_⟩
  cases inv with
  | live contents _ opened => exact ⟨contents, opened.intact⟩
  | closed off _ =>
    obtain ⟨more, calls, nothing⟩ := Emits.step output.inv taken
    rw [calls, accepted_append, nothing off, List.append_nil]
    exact output.within.trans (sent_grows taken)

theorem Output.all_sent (output : Output s) (shut : .shutdownWrite ∈ s.conn.syscalls) :
    accepted s.conn.syscalls = s.sent := by
  cases output.shut with
  | notYet none _ => exact absurd shut none
  | issued before split _ all _ _ =>
    rw [split, accepted_append, accepted_shutdownWrite, List.append_nil]
    exact all

/-- The half-close is the last of the calls on the socket. -/
theorem Output.frozen (before : Output s) (after : Output t) (shut : .shutdownWrite ∈ s.conn.syscalls)
    {more : List Syscall} (calls : t.conn.syscalls = s.conn.syscalls ++ more) : more = [] := by
  cases before.shut with
  | notYet none _ => exact absurd shut none
  | issued earlier split _ _ _ _ =>
    rw [split, List.append_assoc, List.singleton_append] at calls
    cases after.shut with
    | notYet none _ =>
      rw [calls] at none
      exact absurd (List.mem_append_right _ List.mem_cons_self) none
    | issued later split' first _ _ _ =>
      rw [split'] at calls
      exact (split_at_end first calls).2

/-- What the peer can still read only grows, and no more once the stream is finished. -/
structure Onward (s t : Session) : Prop where
  output : Output t
  grows : accepted s.conn.syscalls <+: accepted t.conn.syscalls
  final : s.Finished → accepted t.conn.syscalls = accepted s.conn.syscalls ∧ t.Finished

theorem Onward.refl (output : Output s) : Onward s s := ⟨output, List.prefix_rfl, fun finished => ⟨rfl, finished⟩⟩

theorem Onward.trans (first : Onward s t) (second : Onward t u) : Onward s u := by
  refine ⟨second.output, first.grows.trans second.grows, fun finished => ?_⟩
  obtain ⟨same, finished⟩ := first.final finished
  obtain ⟨same', finished⟩ := second.final finished
  exact ⟨same'.trans same, finished⟩

theorem Onward.withInput (onward : Onward s t) (input : Buffer) : Onward s (t.withInput input) where
  output := ⟨onward.output.inv.withInput input, onward.output.shut.withInput input, onward.output.within⟩
  grows := onward.grows
  final := onward.final

theorem Onward.step (output : Output s) {action : Action} (admitted : Public s action)
    (taken : Tcp.step s action = some t) : Onward s t := by
  have after := output.step admitted taken
  obtain ⟨more, calls, nothing⟩ := Emits.step output.inv taken
  have accepts : accepted t.conn.syscalls = accepted s.conn.syscalls ++ accepted more := by
    rw [calls, accepted_append]
  refine ⟨after, ⟨accepted more, accepts.symm⟩, ?_⟩
  intro finished
  rcases finished with shut | gone
  · have none := output.frozen after shut calls
    rw [none, List.append_nil] at calls
    refine ⟨by rw [calls], .inl ?_⟩
    rw [calls]
    exact shut
  · cases output.inv with
    | live _ _ opened =>
      have socket := opened.socket
      omega
    | closed off _ =>
      have still : t.conn.Gone := TcpConnection.Gone.step ⟨off, gone⟩ taken
      rw [accepts, nothing still.1, List.append_nil]
      exact ⟨rfl, .inr still.2⟩

variable {p q : Party}

def Party.arrived (p : Party) : PartyAction → List UInt8
  | .run action => p.session.arrived action
  | .retrieve _ | .retrieveAll | .reply _ => []

def Party.ends (p : Party) : PartyAction → Bool
  | .run action => p.session.ends action
  | .retrieve _ | .retrieveAll | .reply _ => false

theorem Party.step_history {action : PartyAction} (taken : p.step action = some q) :
    q.received = p.received ++ p.arrived action ∧ q.ended = (p.ended || p.ends action) := by
  cases action <;> simp only [Party.step] at taken
  case run action =>
    obtain ⟨session, _, rfl⟩ := Option.map_eq_some_iff.mp taken
    exact ⟨rfl, rfl⟩
  case retrieve len =>
    split at taken <;> cases taken
    exact ⟨(List.append_nil _).symm, (Bool.or_false _).symm⟩
  case retrieveAll =>
    cases taken
    exact ⟨(List.append_nil _).symm, (Bool.or_false _).symm⟩
  case reply result =>
    split at taken <;> cases taken
    exact ⟨(List.append_nil _).symm, (Bool.or_false _).symm⟩

theorem Party.onward (fed : p.Fed) (output : Output p.session) {action : PartyAction} (admitted : p.Public action)
    (taken : p.step action = some q) : Onward p.session q.session := by
  apply Party.session_keeps (Onward p.session) _ _ fed admitted taken (.refl output)
  · intro s action t onward admitted taken
    exact onward.trans (.step onward.output admitted taken)
  · intro s input onward
    exact onward.withInput input

inductive Side where
  | left
  | right
  deriving DecidableEq, Repr

def Side.other : Side → Side
  | .left => .right
  | .right => .left

@[simp] theorem Side.other_other (side : Side) : side.other.other = side := by cases side <;> rfl

theorem Side.other_ne (side : Side) : side.other ≠ side := by cases side <;> decide

theorem Side.eq_or (side x : Side) : x = side ∨ x = side.other := by cases side <;> cases x <;> decide

/-- The two ends of one TCP connection. -/
def Pair := Side → Party

def Pair.set (pair : Pair) (side : Side) (party : Party) : Pair := fun x => if x = side then party else pair x

theorem Pair.set_self (pair : Pair) (side : Side) (party : Party) : pair.set side party side = party := if_pos rfl

theorem Pair.set_of_ne (pair : Pair) {side x : Side} (party : Party) (ne : x ≠ side) :
    pair.set side party x = pair x := if_neg ne

def Pair.step (pair : Pair) (move : Side × PartyAction) : Option Pair :=
  ((pair move.1).step move.2).map (pair.set move.1)

/-- The bytes the socket of the other end has accepted. -/
def Pair.stream (pair : Pair) (side : Side) : List UInt8 := accepted (pair side.other).session.conn.syscalls

/-- What the kernel does between the ends: `readv` delivers bytes that the other socket has accepted, in order, and
    reports the end of the stream when all of them are delivered and the other end is finished. It may fail at
    any time. -/
structure Pair.Transports (pair : Pair) (move : Side × PartyAction) : Prop where
  admitted : (pair move.1).Public move.2
  delivers : (pair move.1).arrived move.2 ≠ [] →
    (pair move.1).received ++ (pair move.1).arrived move.2 <+: pair.stream move.1
  ends : (pair move.1).ends move.2 = true →
    (pair move.1).received = pair.stream move.1 ∧ (pair move.1.other).session.Finished

instance (pair : Pair) (move : Side × PartyAction) : Decidable (pair.Transports move) :=
  decidable_of_iff
    ((pair move.1).Public move.2 ∧
      ((pair move.1).arrived move.2 ≠ [] →
        (pair move.1).received ++ (pair move.1).arrived move.2 <+: pair.stream move.1) ∧
      ((pair move.1).ends move.2 = true →
        (pair move.1).received = pair.stream move.1 ∧ (pair move.1.other).session.Finished))
    ⟨fun ⟨admitted, delivers, ends⟩ => ⟨admitted, delivers, ends⟩,
      fun ⟨admitted, delivers, ends⟩ => ⟨admitted, delivers, ends⟩⟩

structure Pair.Sound (pair : Pair) : Prop where
  fed : ∀ side, (pair side).Fed
  output : ∀ side, Output (pair side).session
  behind : ∀ side, (pair side).received <+: pair.stream side
  ended : ∀ side, (pair side).ended = true →
    (pair side).received = pair.stream side ∧ (pair side.other).session.Finished

variable {pair later : Pair}

theorem Pair.Sound.step (sound : pair.Sound) {move : Side × PartyAction} (transports : pair.Transports move)
    (taken : pair.step move = some later) : later.Sound := by
  obtain ⟨side, action⟩ := move
  obtain ⟨party, stepped, rfl⟩ := Option.map_eq_some_iff.mp taken
  have onward := Party.onward (sound.fed side) (sound.output side) transports.admitted stepped
  obtain ⟨received, ended⟩ := Party.step_history stepped
  have own : pair.set side party side = party := pair.set_self side party
  have others : pair.set side party side.other = pair side.other := pair.set_of_ne party side.other_ne
  constructor
  · intro x
    rcases side.eq_or x with rfl | rfl
    · rw [own]
      exact (sound.fed x).step stepped
    · rw [others]
      exact sound.fed side.other
  · intro x
    rcases side.eq_or x with rfl | rfl
    · rw [own]
      exact onward.output
    · rw [others]
      exact sound.output side.other
  · intro x
    unfold Pair.stream
    rcases side.eq_or x with rfl | rfl
    · rw [own, others, received]
      by_cases nothing : (pair x).arrived action = []
      · rw [nothing, List.append_nil]
        exact sound.behind x
      · exact transports.delivers nothing
    · have behind := sound.behind side.other
      rw [Pair.stream, Side.other_other] at behind
      rw [others, Side.other_other, own]
      exact behind.trans onward.grows
  · intro x
    unfold Pair.stream
    rcases side.eq_or x with rfl | rfl
    · rw [own, others, ended, received, Bool.or_eq_true]
      intro atEnd
      have all : (pair x).received = pair.stream x ∧ (pair x.other).session.Finished := by
        rcases atEnd with before | now
        · exact sound.ended x before
        · exact transports.ends now
      have nothing : (pair x).arrived action = [] := by
        by_contra some
        have more : ((pair x).received ++ (pair x).arrived action).length ≤ (pair.stream x).length :=
          (transports.delivers some).length_le
        have positive := List.length_pos_iff.mpr some
        rw [List.length_append, all.1] at more
        omega
      rw [nothing, List.append_nil]
      exact all
    · rw [others, Side.other_other, own]
      intro before
      obtain ⟨all, finished⟩ := sound.ended side.other before
      rw [Pair.stream, Side.other_other] at all
      rw [Side.other_other] at finished
      obtain ⟨same, finished⟩ := onward.final finished
      exact ⟨all.trans same.symm, finished⟩

/-- What has arrived at the user of one end, retrieved or not. -/
def Party.delivered (p : Party) : List UInt8 := p.retrieved ++ p.input.readable

theorem Party.Fed.delivered (fed : p.Fed) : p.delivered = p.received := by
  obtain ⟨contents, carries, all⟩ := fed
  rw [Party.delivered, carries.readable]
  exact all

/-- What the other socket has accepted and this one has not delivered. -/
def Pair.inFlight (pair : Pair) (side : Side) : List UInt8 := (pair.stream side).drop (pair side).received.length

/-- What waits in the output buffer of the other end. -/
def Pair.waiting (pair : Pair) (side : Side) : List UInt8 := (pair side.other).session.conn.outputBuffer.readable

theorem Pair.Sound.stream_eq (sound : pair.Sound) (side : Side) :
    (pair side).delivered ++ pair.inFlight side = pair.stream side := by
  obtain ⟨rest, split⟩ := sound.behind side
  rw [(sound.fed side).delivered, Pair.inFlight, ← split, List.drop_left]

theorem Pair.Sound.sent_eq (sound : pair.Sound) (side : Side)
    (open_ : (pair side.other).session.conn.state ≠ .kDisconnected) :
    (pair side).delivered ++ pair.inFlight side ++ pair.waiting side = (pair side.other).session.sent := by
  rw [sound.stream_eq]
  cases (sound.output side.other).inv with
  | live contents _ opened =>
    rw [Pair.waiting, opened.carries.readable]
    exact opened.intact
  | closed off _ => exact absurd off open_

theorem Pair.Sound.delivered_prefix (sound : pair.Sound) (side : Side) :
    (pair side).delivered <+: (pair side.other).session.sent := by
  rw [(sound.fed side).delivered]
  exact (sound.behind side).trans (sound.output side.other).within

section Streams

variable {names : Side → List UInt8} {sockets : Side → Nat} {writeComplete highWater : Side → Bool} {marks : Side → Nat}

/-- Two connections as `newConnection` leaves them. -/
def Pair.established (names : Side → List UInt8) (sockets : Side → Nat) (writeComplete highWater : Side → Bool)
    (marks : Side → Nat) : Pair :=
  fun side => .initial (.initial (names side) (sockets side) (writeComplete side) (highWater side) (marks side))

theorem Pair.established_sound : (Pair.established names sockets writeComplete highWater marks).Sound where
  fed _ := Party.Fed.initial _ _ _ _ _
  output _ := Output.initial _ _ _ _ _
  behind _ := List.nil_prefix
  ended _ atEnd := by cases atEnd

theorem reachable_sound
    (run : Reaches Pair.step Pair.Transports (Pair.established names sockets writeComplete highWater marks) pair) :
    pair.Sound :=
  run.keeps Pair.established_sound fun _ _ _ sound transports taken => sound.step transports taken

/-- What the user of one end has, what is on the way and what waits in the output buffer of the other end is what
    was sent there, in order; of what an end that has closed has sent, a part from the start arrives. -/
theorem stream_in_order
    (run : Reaches Pair.step Pair.Transports (Pair.established names sockets writeComplete highWater marks) pair)
    (side : Side) :
    (pair side).delivered <+: (pair side.other).session.sent ∧
    ((pair side.other).session.conn.state ≠ .kDisconnected →
      (pair side).delivered ++ pair.inFlight side ++ pair.waiting side = (pair side.other).session.sent) := by
  have sound := reachable_sound run
  exact ⟨sound.delivered_prefix side, sound.sent_eq side⟩

/-- Two fresh connections; `5` and `6` are their descriptors. -/
def Pair.fresh : Pair :=
  .established (fun _ => []) (fun side => if side = .left then 5 else 6) (fun _ => true) (fun _ => false) (fun _ => 64)

/-- Three bytes sent: one at the other end, one on the way and one in the output buffer. -/
theorem stream_in_order_spread : ∃ pair : Pair, (pair .right).delivered = [1] ∧ pair.inFlight .right = [2] ∧
    pair.waiting .right = [3] ∧ (pair .left).session.conn.state = .kConnected ∧
    (pair .right).delivered ++ pair.inFlight .right ++ pair.waiting .right = (pair .left).session.sent := by
  have ran : (exec (guarded Pair.step Pair.Transports) Pair.fresh
      [(.left, .run (.send [1, 2, 3] (.wrote 2))), (.right, .run (.handleRead (.data [1])))]).map
      (fun pair => ((pair .right).delivered, pair.inFlight .right, pair.waiting .right,
        (pair .left).session.conn.state)) = some ([1], [2], [3], .kConnected) := by decide +kernel
  obtain ⟨pair, reached, facts⟩ := Option.map_eq_some_iff.mp ran
  simp only [Prod.mk.injEq] at facts
  obtain ⟨delivered, inFlight, waiting, connected⟩ := facts
  have open_ : (pair .left).session.conn.state ≠ .kDisconnected := by rw [connected]; decide
  exact ⟨pair, delivered, inFlight, waiting, connected,
    (stream_in_order (exec_guarded_reaches reached) .right).2 open_⟩

/-- Where an end reads the end of the stream and the other one has shut down its write side, all that was sent
    there has arrived; a `shutdown` loses nothing that was sent before it. -/
theorem graceful_close
    (run : Reaches Pair.step Pair.Transports (Pair.established names sockets writeComplete highWater marks) pair)
    (side : Side) (ended : (pair side).ended = true)
    (shut : .shutdownWrite ∈ (pair side.other).session.conn.syscalls) :
    (pair side).delivered = (pair side.other).session.sent := by
  have sound := reachable_sound run
  rw [(sound.fed side).delivered, (sound.ended side ended).1]
  exact (sound.output side.other).all_sent shut

/-- The half-close waits for the second byte, and the end of the stream for both. -/
theorem graceful_close_pending : ∃ pair : Pair, (pair .right).ended = true ∧ (pair .right).delivered = [1, 2] ∧
    (pair .left).session.conn.syscalls = [.write [1], .write [2], .shutdownWrite] ∧
    (pair .right).delivered = (pair .left).session.sent := by
  have ran : (exec (guarded Pair.step Pair.Transports) Pair.fresh
      [(.left, .run (.send [1, 2] (.wrote 1))), (.left, .run .shutdown), (.right, .run (.handleRead (.data [1]))),
        (.left, .run (.handleWrite (.wrote 1))), (.right, .run (.handleRead (.data [2]))), (.right, .retrieve 1),
        (.right, .run (.handleRead (.data [])))]).map
      (fun pair => ((pair .right).ended, (pair .right).delivered, (pair .left).session.conn.syscalls)) =
      some (true, [1, 2], [.write [1], .write [2], .shutdownWrite]) := by decide +kernel
  obtain ⟨pair, reached, facts⟩ := Option.map_eq_some_iff.mp ran
  simp only [Prod.mk.injEq] at facts
  obtain ⟨ended, delivered, syscalls⟩ := facts
  have shut : .shutdownWrite ∈ (pair Side.left).session.conn.syscalls := by rw [syscalls]; decide
  exact ⟨pair, ended, delivered, syscalls, graceful_close (exec_guarded_reaches reached) .right ended shut⟩

end Streams

section Echo

/-- What the user of an echo server leaves to others: it sends nothing of its own and retrieves nothing but by
    sending it back. -/
def PartyAction.echoes : PartyAction → Bool
  | .run (.send _ _) | .run (.sendBuffer _ _) | .run (.sendInLoop _ _) | .retrieve _ | .retrieveAll => false
  | .run _ | .reply _ => true

theorem Party.echo_step (echo : p.session.sent = p.retrieved) {action : PartyAction} (echoes : action.echoes = true)
    (taken : p.step action = some q) : q.session.sent = q.retrieved := by
  cases action with
  | retrieve len => cases echoes
  | retrieveAll => cases echoes
  | reply result =>
    simp only [Party.step] at taken
    split at taken <;> cases taken
    simp only [Party.reply, echo]
  | run action =>
    obtain ⟨session, stepped, rfl⟩ := Option.map_eq_some_iff.mp taken
    have silent : action.sends = false := by
      cases action <;> first | rfl | cases echoes
    have same := sent_kept silent stepped
    exact same.trans echo

def Pair.Echoes (server : Side) (pair : Pair) (move : Side × PartyAction) : Prop :=
  pair.Transports move ∧ (move.1 = server → move.2.echoes = true)

instance (server : Side) (pair : Pair) (move : Side × PartyAction) : Decidable (pair.Echoes server move) :=
  inferInstanceAs (Decidable (_ ∧ _))

variable {names : Side → List UInt8} {sockets : Side → Nat} {writeComplete highWater : Side → Bool} {marks : Side → Nat}

/-- A client of an echo server gets back what it sent: while both ends are open the bytes it sent are, in order, those
    it has, and those in the two streams and the three buffers on the way round; after that, a part from the start. -/
theorem echo_returns {server : Side}
    (run : Reaches Pair.step (Pair.Echoes server) (Pair.established names sockets writeComplete highWater marks) pair) :
    (pair server.other).delivered <+: (pair server.other).session.sent ∧
    ((pair server).session.conn.state ≠ .kDisconnected → (pair server.other).session.conn.state ≠ .kDisconnected →
      (pair server.other).delivered ++ pair.inFlight server.other ++ pair.waiting server.other ++
        (pair server).input.readable ++ pair.inFlight server ++ pair.waiting server =
      (pair server.other).session.sent) := by
  have sound := reachable_sound (run.weaken fun _ _ echoes => echoes.1)
  have echo : (pair server).session.sent = (pair server).retrieved := by
    apply run.keeps
    · rfl
    · intro before move after held echoes taken
      obtain ⟨party, stepped, rfl⟩ := Option.map_eq_some_iff.mp taken
      by_cases own : move.1 = server
      · subst own
        rw [Pair.set_self]
        exact Party.echo_step held (echoes.2 rfl) stepped
      · rw [Pair.set_of_ne _ _ (Ne.symm own)]
        exact held
  have back := sound.delivered_prefix server.other
  have there := sound.delivered_prefix server
  rw [Side.other_other] at back
  constructor
  · rw [echo] at back
    exact back.trans ((List.prefix_append _ _).trans there)
  · intro serverOpen clientOpen
    have returned := sound.sent_eq server.other
    rw [Side.other_other] at returned
    rw [returned serverOpen, echo]
    exact sound.sent_eq server clientOpen

theorem echo_returns_round : ∃ pair : Pair, (pair .left).delivered = [1] ∧ pair.waiting .left = [2] ∧
    (pair .right).input.readable = [3] ∧ pair.waiting .right = [4] ∧
    (pair .left).delivered ++ pair.inFlight .left ++ pair.waiting .left ++ (pair .right).input.readable ++
      pair.inFlight .right ++ pair.waiting .right = (pair .left).session.sent := by
  have ran : (exec (guarded Pair.step (Pair.Echoes .right)) Pair.fresh
      [(.left, .run (.send [1, 2, 3, 4] (.wrote 3))), (.right, .run (.handleRead (.data [1, 2]))),
        (.right, .reply (.wrote 1)), (.left, .run (.handleRead (.data [1]))),
        (.right, .run (.handleRead (.data [3])))]).map
      (fun pair => (((pair .left).delivered, pair.waiting .left, (pair .right).input.readable, pair.waiting .right),
        (pair .left).session.conn.state, (pair .right).session.conn.state)) =
      some (([1], [2], [3], [4]), .kConnected, .kConnected) := by decide +kernel
  obtain ⟨pair, reached, facts⟩ := Option.map_eq_some_iff.mp ran
  simp only [Prod.mk.injEq] at facts
  obtain ⟨⟨delivered, back, input, there⟩, client, server⟩ := facts
  have serverOpen : (pair .right).session.conn.state ≠ .kDisconnected := by rw [server]; decide
  have clientOpen : (pair .left).session.conn.state ≠ .kDisconnected := by rw [client]; decide
  exact ⟨pair, delivered, back, input, there, (echo_returns (exec_guarded_reaches reached)).2 serverOpen clientOpen⟩

end Echo

end Hvnetpp.Tcp
