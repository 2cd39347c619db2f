import Hvnetpp.Tcp.Overloads
import Hvnetpp.Tcp.Shutdown

namespace Hvnetpp.Tcp

open Machine

variable {c d : TcpConnection} {s t : Session}

section InputBuffer

variable (c)

@[simp] theorem handleClose_input : c.handleClose.conn.inputBuffer = c.inputBuffer := by
  simp only [TcpConnection.handleClose, TcpConnection.check]
  split <;> rfl

@[simp] theorem handleError_input (err : Nat) : (c.handleError err).conn.inputBuffer = c.inputBuffer := by
  unfold TcpConnection.handleError
  split
  · rfl
  · split
    · exact handleClose_input c
    · rfl

@[simp] theorem shutdownInLoop_input : c.shutdownInLoop.inputBuffer = c.inputBuffer := by
  unfold TcpConnection.shutdownInLoop
  split <;> rfl

theorem keep_input (remaining : List UInt8) (tasks : List Task) :
    (c.keep remaining tasks).conn.inputBuffer = c.inputBuffer := by
  unfold TcpConnection.keep
  split
  · dsimp only
    split <;> rfl
  · rfl

theorem sendInLoop_input (data : List UInt8) (result : WriteResult) :
    (c.sendInLoop data result).conn.inputBuffer = c.inputBuffer := by
  unfold TcpConnection.sendInLoop
  split
  · rfl
  · split
    · split
      · exact keep_input _ _ _
      · split
        · exact handleError_input _ _
        · exact keep_input _ _ _
    · exact keep_input _ _ _

theorem sendBuffer_input (data : List UInt8) (result : WriteResult) :
    (c.sendBuffer data result).conn.inputBuffer = c.inputBuffer := by
  unfold TcpConnection.sendBuffer
  split
  · exact sendInLoop_input c data result
  · rfl

theorem handleWrite_input (result : WriteResult) : (c.handleWrite result).conn.inputBuffer = c.inputBuffer := by
  unfold TcpConnection.handleWrite
  split
  · rfl
  · split
    · exact handleError_input _ _
    · unfold TcpConnection.flushed
      dsimp only
      split
      · split
        · exact shutdownInLoop_input _
        · rfl
      · rfl
    · exact handleError_input _ _

theorem connectDestroyed_input : c.connectDestroyed.inputBuffer = c.inputBuffer := by
  unfold TcpConnection.connectDestroyed TcpConnection.release TcpConnection.closeSocket TcpConnection.disconnect
  split
  · split <;> rfl
  · split <;> rfl

theorem shutdown_input : c.shutdown.inputBuffer = c.inputBuffer := by
  unfold TcpConnection.shutdown
  split
  · exact shutdownInLoop_input _
  · rfl

theorem handleSocketError_input (err : Nat) : (c.handleSocketError err).conn.inputBuffer = c.inputBuffer := by
  unfold TcpConnection.handleSocketError
  split
  · exact handleError_input c err
  · rfl

end InputBuffer

/-- The bytes that `readv` delivers, if the action calls it. -/
def Session.arrived (s : Session) : Action → List UInt8
  | .handleRead (.data bytes) => if s.conn.state = .kDisconnected then [] else bytes
  | _ => []

/-- `readv` reports the end of the stream. -/
def Session.ends (s : Session) : Action → Bool
  | .handleRead (.data []) => decide (s.conn.state ≠ .kDisconnected)
  | _ => false

theorem handleRead_carries {contents : List UInt8} (carries : s.conn.inputBuffer.Carries contents)
    (result : ReadResult) :
    (s.conn.handleRead result).conn.inputBuffer.Carries (contents ++ s.arrived (.handleRead result)) := by
  by_cases off : s.conn.state = .kDisconnected
  · have nothing : s.arrived (.handleRead result) = [] := by
      cases result <;> simp [Session.arrived, off]
    rw [closed_handleRead off, nothing, List.append_nil]
    exact carries
  · unfold TcpConnection.handleRead
    rw [if_neg off]
    match result with
    | .data [] =>
      rw [Session.arrived, ite_self, List.append_nil]
      exact (handleClose_input s.conn).symm ▸ carries
    | .data (byte :: bytes) =>
      rw [Session.arrived, if_neg off]
      exact carries.readFd (byte :: bytes)
    | .failed errno =>
      rw [Session.arrived, List.append_nil]
      · exact (handleError_input s.conn errno).symm ▸ carries
      · intro bytes other
        cases other

/-- Only `readv` adds to the input buffer, and nothing in the connection takes from it. -/
theorem step_input {contents : List UInt8} (carries : s.conn.inputBuffer.Carries contents) {action : Action}
    (taken : step s action = some t) : t.conn.inputBuffer.Carries (contents ++ s.arrived action) := by
  have same : t.conn.inputBuffer = s.conn.inputBuffer →
      t.conn.inputBuffer.Carries (contents ++ []) := by
    intro kept
    rw [kept, List.append_nil]
    exact carries
  cases action <;> simp only [step] at taken
  case sendInLoop data result =>
    split at taken <;> cases taken
    exact same (sendInLoop_input _ _ _)
  case send data result =>
    split at taken <;> cases taken
    apply same
    rw [send_eq]
    split
    · rfl
    · exact sendBuffer_input _ _ _
  case sendBuffer data result =>
    split at taken <;> cases taken
    exact same (sendBuffer_input _ _ _)
  case shutdown =>
    cases taken
    exact same (shutdown_input _)
  case handleRead result =>
    cases taken
    exact handleRead_carries carries result
  case handleWrite result =>
    split at taken <;> cases taken
    exact same (handleWrite_input _ _)
  case handleError err =>
    cases taken
    exact same (handleSocketError_input _ _)
  case handleClose =>
    cases taken
    exact same (handleClose_input _)
  case connectDestroyed =>
    cases taken
    exact same (connectDestroyed_input _)

def Session.withInput (s : Session) (input : Buffer) : Session :=
  { s with conn := { s.conn with inputBuffer := input } }

/-- A connection and the user of its input buffer. History: `received` is what `readv` has delivered, `retrieved`
    what the user has taken from the buffer, and `ended` that `readv` has reported the end of the stream. -/
structure Party where
  session : Session
  received : List UInt8
  retrieved : List UInt8
  ended : Bool
  deriving DecidableEq, Repr

def Party.initial (session : Session) : Party :=
  { session := session, received := [], retrieved := [], ended := false }

def Party.input (p : Party) : Buffer := p.session.conn.inputBuffer

/-- What the user of the connection does, beside what `Action` has. `reply` is `conn->send(buf)` with the buffer
    that the message callback was given. -/
inductive PartyAction where
  | run (action : Action)
  | retrieve (len : Nat)
  | retrieveAll
  | reply (result : WriteResult)
  deriving DecidableEq, Repr

/-- `send(Buffer*)` on the loop thread, with the connection's own input buffer. -/
def Party.reply (p : Party) (result : WriteResult) : Party :=
  let (effect, input) := p.session.conn.sendBufferPtr true p.input result
  let data := if p.session.conn.state = .kConnected then p.input.readable else []
  { p with
    session := { conn := { effect.reply.conn with inputBuffer := input }, sent := p.session.sent ++ data }
    retrieved := p.retrieved ++ data }

def Party.step (p : Party) : PartyAction → Option Party
  | .run action => (Tcp.step p.session action).map fun session =>
      { p with
        session := session
        received := p.received ++ p.session.arrived action
        ended := p.ended || p.session.ends action }
  | .retrieve len =>
    if len ≤ p.input.readableBytes then
      some { p with session := p.session.withInput (p.input.retrieve len), retrieved := p.retrieved ++ p.input.readable.take len }
    else none
  | .retrieveAll =>
    some { p with session := p.session.withInput p.input.retrieveAll, retrieved := p.retrieved ++ p.input.readable }
  | .reply result =>
    if result.possible p.input.readableBytes then some (p.reply result) else none

def Party.Public (p : Party) : PartyAction → Prop
  | .run action => Tcp.Public p.session action
  | .retrieve _ | .retrieveAll | .reply _ => True

instance (p : Party) (action : PartyAction) : Decidable (p.Public action) :=
  match action with
  | .run action => inferInstanceAs (Decidable (Tcp.Public p.session action))
  | .retrieve _ | .retrieveAll | .reply _ => isTrue trivial

theorem Inv.withInput (inv : Inv s) (input : Buffer) : Inv (s.withInput input) := by
  cases inv with
  | live contents state opened => exact .live contents state (opened.congr rfl rfl rfl rfl)
  | closed state quiet => exact .closed state quiet

theorem Shut.withInput (shut : Shut s) (input : Buffer) : Shut (s.withInput input) :=
  shut.leaves (.same rfl rfl rfl rfl)

variable {p q : Party}

/-- The user's part of the input buffer and what the connection has put there are all that was received. -/
def Party.Fed (p : Party) : Prop := ∃ contents, p.input.Carries contents ∧ p.retrieved ++ contents = p.received

theorem Party.Fed.initial (name : List UInt8) (sockfd : Nat) (writeComplete highWater : Bool) (mark : Nat) :
    (Party.initial (Session.initial name sockfd writeComplete highWater mark)).Fed := by
  refine ⟨[], ?_, rfl⟩
  have kept : (TcpConnection.create name sockfd).connectEstablished.inputBuffer = .create kInitialSize := by
    unfold TcpConnection.connectEstablished TcpConnection.check
    split <;> rfl
  have empty := Buffer.Carries.create kInitialSize
  rw [← kept] at empty
  exact empty

/-- Where `send(Buffer*)` is given the connection's own buffer, it sends what the buffer carries. -/
theorem Party.reply_session {contents : List UInt8} (carries : p.input.Carries contents) {result : WriteResult}
    (possible : result.possible p.input.readableBytes = true) :
    ∃ sent, Tcp.step p.session (.sendBuffer contents result) = some sent ∧
      (p.reply result).session = sent.withInput (p.session.conn.sendBufferPtr true p.input result).2 := by
  have length := carries.length
  rw [length] at possible
  refine ⟨_, if_pos possible, ?_⟩
  simp only [Party.reply, Session.withInput, sendBufferPtr_inLoop carries, carries.readable]
  split
  · rfl
  · rw [List.append_nil]

/-- What the steps of a connection keep, whatever its input buffer, the steps of a party keep. -/
theorem Party.session_keeps (inv : Session → Prop)
    (kept : ∀ s action t, inv s → Tcp.Public s action → Tcp.step s action = some t → inv t)
    (blind : ∀ s input, inv s → inv (s.withInput input)) {action : PartyAction} (fed : p.Fed)
    (admitted : p.Public action) (taken : p.step action = some q) (held : inv p.session) : inv q.session := by
  cases action <;> simp only [Party.step] at taken
  case run action =>
    obtain ⟨session, stepped, rfl⟩ := Option.map_eq_some_iff.mp taken
    exact kept _ action _ held admitted stepped
  case retrieve len =>
    split at taken <;> cases taken
    exact blind _ _ held
  case retrieveAll =>
    cases taken
    exact blind _ _ held
  case reply result =>
    split at taken
    · rename_i possible
      cases taken
      obtain ⟨contents, carries, _⟩ := fed
      obtain ⟨sent, stepped, same⟩ := Party.reply_session carries possible
      rw [same]
      exact blind _ _ (kept _ (.sendBuffer contents result) _ held trivial stepped)
    · cases taken

theorem Party.Fed.reply (fed : p.Fed) (result : WriteResult) : (p.reply result).Fed := by
  obtain ⟨contents, carries, all⟩ := fed
  have input : (p.reply result).input = (p.session.conn.sendBufferPtr true p.input result).2 := rfl
  have after : (p.session.conn.state = .kConnected → (p.reply result).input.Carries []) ∧
      (p.session.conn.state ≠ .kConnected → (p.reply result).input = p.input) := by
    rw [input]
    exact sendBufferPtr_buffer carries
  by_cases connected : p.session.conn.state = .kConnected
  · refine ⟨[], after.1 connected, ?_⟩
    simp only [Party.reply, if_pos connected, carries.readable, List.append_nil]
    exact all
  · refine ⟨contents, ?_, ?_⟩
    · rw [after.2 connected]
      exact carries
    · simp only [Party.reply, if_neg connected, List.append_nil]
      exact all

theorem Party.Fed.step (fed : p.Fed) {action : PartyAction} (taken : p.step action = some q) : q.Fed := by
  cases action <;> simp only [Party.step] at taken
  case run action =>
    obtain ⟨contents, carries, all⟩ := fed
    obtain ⟨session, stepped, rfl⟩ := Option.map_eq_some_iff.mp taken
    refine ⟨contents ++ p.session.arrived action, step_input carries stepped, ?_⟩
    rw [← List.append_assoc, all]
  case retrieve len =>
    obtain ⟨contents, carries, all⟩ := fed
    split at taken
    · rename_i legal
      cases taken
      refine ⟨contents.drop len, carries.retrieve (carries.length ▸ legal), ?_⟩
      rw [carries.readable, List.append_assoc, List.take_append_drop]
      exact all
    · cases taken
  case retrieveAll =>
    obtain ⟨contents, carries, all⟩ := fed
    cases taken
    refine ⟨[], carries.retrieveAll, ?_⟩
    rw [carries.readable, List.append_nil]
    exact all
  case reply result =>
    split at taken <;> cases taken
    exact fed.reply result

/-- What the user has retrieved and what is still in the input buffer is what `readv` delivered, in order, and
    every delivery to an open connection ends with the message callback on all that is not retrieved yet. -/
theorem input_intact {name : List UInt8} {sockfd : Nat} {writeComplete highWater : Bool} {highWaterMark : Nat}
    (run : Reaches Party.step Any (.initial (.initial name sockfd writeComplete highWater highWaterMark)) p) :
    p.retrieved ++ p.input.readable = p.received ∧ p.input.failed = false ∧
    (p.session.conn.state ≠ .kDisconnected → ∀ bytes, bytes ≠ [] →
      (p.session.conn.handleRead (.data bytes)).next = .message ∧
      p.retrieved ++ (p.session.conn.handleRead (.data bytes)).conn.inputBuffer.readable = p.received ++ bytes) := by
  have fed : p.Fed := run.keeps (Party.Fed.initial _ _ _ _ _) fun _ _ _ held _ taken => held.step taken
  obtain ⟨contents, carries, all⟩ := fed
  refine ⟨by rw [carries.readable]; exact all, carries.sound, ?_⟩
  intro open_ bytes some
  have delivered := handleRead_carries (s := p.session) carries (.data bytes)
  rw [Session.arrived, if_neg open_] at delivered
  constructor
  · unfold TcpConnection.handleRead
    rw [if_neg open_]
    cases bytes with
    | nil => exact absurd rfl some
    | cons byte rest => rfl
  · rw [delivered.readable, ← List.append_assoc, all]

/-- Two deliveries, a part of the first retrieved between them, and the rest sent back. -/
theorem input_intact_replied : ∃ p : Party, p.received = [1, 2, 3, 4] ∧ p.retrieved = [1, 2, 3, 4] ∧
    p.session.sent = [2, 3, 4] ∧ p.session.conn.state = .kConnected ∧ p.retrieved ++ p.input.readable = p.received ∧
    (p.session.conn.handleRead (.data [5])).next = .message := by
  have ran : (exec Party.step (.initial (.initial [] 5 true true 2))
      [.run (.handleRead (.data [1, 2])), .retrieve 1, .run (.handleRead (.data [3, 4])), .reply (.wrote 2)]).map
      (fun p => (p.received, p.retrieved, p.session.sent, p.session.conn.state)) =
      some ([1, 2, 3, 4], [1, 2, 3, 4], [2, 3, 4], .kConnected) := by decide +kernel
  obtain ⟨p, reached, facts⟩ := Option.map_eq_some_iff.mp ran
  simp only [Prod.mk.injEq] at facts
  obtain ⟨received, retrieved, sent, connected⟩ := facts
  obtain ⟨whole, _, next⟩ := input_intact (exec_reaches reached)
  have open_ : p.session.conn.state ≠ .kDisconnected := by rw [connected]; decide
  exact ⟨p, received, retrieved, sent, connected, whole, (next open_ [5] (List.cons_ne_nil _ _)).1⟩

end Hvnetpp.Tcp
