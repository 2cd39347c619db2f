import Hvnetpp.Buffer.Deque
import Hvnetpp.Machine.Runs
import Hvnetpp.Tcp.Connection

namespace Hvnetpp.Tcp

open Machine

/-- The bytes the socket has accepted. -/
def accepted (syscalls : List Syscall) : List UInt8 :=
  syscalls.flatMap fun
    | .write bytes => bytes
    | .shutdownWrite => []

@[simp] theorem accepted_append (first second : List Syscall) :
    accepted (first ++ second) = accepted first ++ accepted second := List.flatMap_append

@[simp] theorem accepted_write (bytes : List UInt8) : accepted [.write bytes] = bytes := List.append_nil _

@[simp] theorem accepted_shutdownWrite : accepted [.shutdownWrite] = [] := rfl

/-- An established connection between two operations of its loop thread. `sent` is history: the data of the
    `sendInLoop` calls, in call order. -/
structure Session where
  conn : TcpConnection
  sent : List UInt8
  deriving DecidableEq, Repr

def Session.initial (name : List UInt8) (sockfd : Nat) (writeComplete highWater : Bool) (highWaterMark : Nat) :
    Session :=
  { conn := { (TcpConnection.create name sockfd).connectEstablished with
      writeCompleteCallback := writeComplete
      highWaterMarkCallback := highWater
      highWaterMark := highWaterMark }
    sent := [] }

inductive Action where
  | sendInLoop (data : List UInt8) (result : WriteResult)
  | send (data : List UInt8) (result : WriteResult)
  | sendBuffer (data : List UInt8) (result : WriteResult)
  | shutdown
  | handleRead (result : ReadResult)
  | handleWrite (result : WriteResult)
  | handleError (err : Nat)
  | handleClose
  | connectDestroyed
  deriving DecidableEq, Repr

def step (s : Session) : Action → Option Session
  | .sendInLoop data result =>
    if result.possible data.length then
      some { conn := (s.conn.sendInLoop data result).conn, sent := s.sent ++ data }
    else none
  | .send data result =>
    if result.possible data.length then
      some { conn := (s.conn.send data result).conn
             sent := if s.conn.state = .kConnected then s.sent ++ data else s.sent }
    else none
  | .sendBuffer data result =>
    if result.possible data.length then
      some { conn := (s.conn.sendBuffer data result).conn
             sent := if s.conn.state = .kConnected then s.sent ++ data else s.sent }
    else none
  | .shutdown => some { s with conn := s.conn.shutdown }
  | .handleRead result => some { s with conn := (s.conn.handleRead result).conn }
  | .handleWrite result =>
    if result.possible s.conn.outputBuffer.readableBytes then
      some { s with conn := (s.conn.handleWrite result).conn }
    else none
  | .handleError err => some { s with conn := (s.conn.handleSocketError err).conn }
  | .handleClose => some { s with conn := s.conn.handleClose.conn }
  | .connectDestroyed => some { s with conn := s.conn.connectDestroyed }

/-- Users reach `sendInLoop` through `send` only. -/
def Public (_ : Session) : Action → Prop
  | .sendInLoop _ _ => False
  | .send _ _ | .sendBuffer _ _ | .shutdown | .handleRead _ | .handleWrite _ | .handleError _ | .handleClose
  | .connectDestroyed => True

/-- The output of a connection that is not disconnected: what the socket has accepted and what waits in the
    buffer, in this order, is what was sent, and the channel asks for write events exactly while something
    waits. -/
structure Open (c : TcpConnection) (sent contents : List UInt8) : Prop where
  carries : c.outputBuffer.Carries contents
  writing : c.channel.isWriting = true ↔ contents ≠ []
  intact : accepted c.syscalls ++ contents = sent
  socket : 0 ≤ c.socketFd

variable {c : TcpConnection} {sent contents data : List UInt8}

theorem Open.congr (opened : Open c sent contents) {d : TcpConnection} (buffer : d.outputBuffer = c.outputBuffer)
    (writing : d.channel.isWriting = c.channel.isWriting) (syscalls : d.syscalls = c.syscalls)
    (socket : d.socketFd = c.socketFd) : Open d sent contents := by
  constructor
  · rw [buffer]
    exact opened.carries
  · rw [writing]
    exact opened.writing
  · rw [syscalls]
    exact opened.intact
  · rw [socket]
    exact opened.socket

theorem Open.idle (opened : Open c sent contents) (empty : contents = []) : c.channel.isWriting = false := by
  rw [← Bool.not_eq_true, opened.writing]
  exact fun some => some empty

theorem Open.keep (opened : Open c sent contents) (remaining : List UInt8) (tasks : List Task) :
    Open (c.keep remaining tasks).conn (sent ++ remaining) (contents ++ remaining) := by
  have intact : accepted c.syscalls ++ (contents ++ remaining) = sent ++ remaining := by
    rw [← List.append_assoc, opened.intact]
  unfold TcpConnection.keep
  split
  · rename_i some
    have waiting : contents ++ remaining ≠ [] := by
      intro none
      rw [(List.append_eq_nil_iff.mp none).2] at some
      exact absurd some (Nat.lt_irrefl 0)
    refine ⟨?_, ?_, ?_, ?_⟩
    · dsimp only
      split <;> exact opened.carries.append remaining
    · dsimp only
      split
      · rename_i writing
        exact iff_of_true writing waiting
      · exact iff_of_true (Channel.enableWriting_isWriting _) waiting
    · dsimp only
      split <;> exact intact
    · dsimp only
      split <;> exact opened.socket
  · rename_i none
    have empty : remaining = [] := List.length_eq_zero_iff.mp (by omega)
    rw [empty, List.append_nil, List.append_nil]
    exact opened.congr rfl rfl rfl rfl

theorem Open.write (opened : Open c sent []) (bytes : List UInt8) : Open (c.write bytes) (sent ++ bytes) [] where
  carries := opened.carries
  writing := opened.writing
  intact := by
    have intact := opened.intact
    rw [List.append_nil] at intact
    rw [TcpConnection.write, accepted_append, accepted_write, intact, List.append_nil]
  socket := opened.socket

theorem Open.failedWrite (opened : Open c sent contents) : Open (c.write []) sent contents where
  carries := opened.carries
  writing := opened.writing
  intact := by
    rw [TcpConnection.write, accepted_append, accepted_write, List.append_nil]
    exact opened.intact
  socket := opened.socket

section Disconnected

variable (off : c.state = .kDisconnected)

include off

theorem closed_sendInLoop (data : List UInt8) (result : WriteResult) :
    c.sendInLoop data result = { conn := c } := by
  unfold TcpConnection.sendInLoop
  exact if_pos off

theorem closed_handleRead (result : ReadResult) : c.handleRead result = { conn := c } := by
  unfold TcpConnection.handleRead
  exact if_pos off

theorem closed_handleWrite (result : WriteResult) : c.handleWrite result = { conn := c } := by
  unfold TcpConnection.handleWrite
  exact if_pos (.inl off)

theorem closed_handleError (err : Nat) : c.handleError err = { conn := c } := by
  simp [TcpConnection.handleError, off]

theorem closed_handleSocketError (err : Nat) : c.handleSocketError err = { conn := c } := by
  simp [TcpConnection.handleSocketError, closed_handleError off]

theorem closed_shutdown : c.shutdown = c := by
  simp [TcpConnection.shutdown, off]

end Disconnected

theorem release_frame (c : TcpConnection) : c.release.state = c.state ∧ c.release.syscalls = c.syscalls ∧
    c.release.channel.events = c.channel.events := by
  unfold TcpConnection.release TcpConnection.closeSocket
  split
  · exact ⟨rfl, rfl, Channel.remove_events _⟩
  · exact ⟨rfl, rfl, Channel.remove_events _⟩

theorem connectDestroyed_frame (c : TcpConnection)
    (quiet : c.state = .kDisconnected → c.channel.events = kNoneEvent) :
    c.connectDestroyed.state = .kDisconnected ∧ c.connectDestroyed.syscalls = c.syscalls ∧
    c.connectDestroyed.channel.events = kNoneEvent := by
  unfold TcpConnection.connectDestroyed
  split
  · obtain ⟨state, syscalls, events⟩ := release_frame c.disconnect
    exact ⟨state, syscalls, events.trans (Channel.disableAll_events _)⟩
  · rename_i off
    obtain ⟨state, syscalls, events⟩ := release_frame c
    rw [not_not] at off
    exact ⟨state.trans off, syscalls, events.trans (quiet off)⟩

/-- What an operation makes of an open connection: it stays open in its state, or it is closed. -/
inductive After (c d : TcpConnection) (sent : List UInt8) : Prop where
  | stays (contents : List UInt8) (state : d.state = c.state) (opened : Open d sent contents)
  | closes (state : d.state = .kDisconnected) (quiet : d.channel.events = kNoneEvent)

def Writes (c d : TcpConnection) : Prop := ∃ more, d.syscalls = c.syscalls ++ more ∧ .shutdownWrite ∉ more

theorem Writes.of_eq {d : TcpConnection} (same : d.syscalls = c.syscalls) : Writes c d :=
  ⟨[], by rw [same, List.append_nil], List.not_mem_nil⟩

theorem Writes.write {d : TcpConnection} (bytes : List UInt8) (same : d.syscalls = (c.write bytes).syscalls) :
    Writes c d := ⟨[.write bytes], same, by simp⟩

theorem Writes.none {d : TcpConnection} (writes : Writes c d) (none : .shutdownWrite ∉ c.syscalls) :
    .shutdownWrite ∉ d.syscalls := by
  obtain ⟨more, split, absent⟩ := writes
  rw [split, List.mem_append]
  exact not_or_intro none absent

@[simp] theorem handleClose_syscalls (c : TcpConnection) : c.handleClose.conn.syscalls = c.syscalls := by
  simp only [TcpConnection.handleClose, TcpConnection.check]
  split <;> rfl

@[simp] theorem handleError_syscalls (c : TcpConnection) (err : Nat) :
    (c.handleError err).conn.syscalls = c.syscalls := by
  unfold TcpConnection.handleError
  split
  · rfl
  · split
    · exact handleClose_syscalls c
    · rfl

theorem keep_syscalls (c : TcpConnection) (remaining : List UInt8) (tasks : List Task) :
    (c.keep remaining tasks).conn.syscalls = c.syscalls := by
  unfold TcpConnection.keep
  split
  · dsimp only
    split <;> rfl
  · rfl

theorem keep_state (c : TcpConnection) (remaining : List UInt8) (tasks : List Task) :
    (c.keep remaining tasks).conn.state = c.state := by
  unfold TcpConnection.keep
  split
  · dsimp only
    split <;> rfl
  · rfl

theorem After.handleClose (c : TcpConnection) (sent : List UInt8) : After c c.handleClose.conn sent :=
  .closes rfl (Channel.disableAll_events _)

theorem After.handleError {d : TcpConnection} (state : d.state = c.state) (opened : Open d sent contents)
    (err : Nat) : After c (d.handleError err).conn sent := by
  unfold TcpConnection.handleError
  split
  · exact .stays contents state opened
  · split
    · exact .closes rfl (Channel.disableAll_events _)
    · exact .stays contents state opened

/-- A fatal error closes an open connection, so it does not matter what has become of the data. -/
theorem After.fatalError {d : TcpConnection} (live : d.state = .kConnected ∨ d.state = .kDisconnecting)
    {err : Nat} (nonzero : 0 < err) (fatal : err ≠ EWOULDBLOCK ∧ err ≠ EAGAIN ∧ err ≠ EINTR) :
    After c (d.handleError err).conn sent := by
  unfold TcpConnection.handleError
  rw [if_neg (by omega), if_pos live]
  exact .closes rfl (Channel.disableAll_events _)

theorem Open.sendInLoop (opened : Open c sent contents) (live : c.state = .kConnected ∨ c.state = .kDisconnecting)
    (data : List UInt8) {result : WriteResult} (possible : result.possible data.length = true) :
    After c (c.sendInLoop data result).conn (sent ++ data) ∧ Writes c (c.sendInLoop data result).conn := by
  have on : c.state ≠ .kDisconnected := by rcases live with state | state <;> rw [state] <;> decide
  unfold TcpConnection.sendInLoop
  rw [if_neg on]
  split
  · rename_i direct
    have empty : contents = [] := by
      apply List.length_eq_zero_iff.mp
      rw [← opened.carries.length]
      exact direct.2
    subst empty
    cases result with
    | wrote n =>
      have written := (opened.write (data.take n)).keep (data.drop n)
      rw [List.append_assoc, List.take_append_drop, List.nil_append] at written
      exact ⟨.stays _ (keep_state _ _ _) (written _), .write (data.take n) (keep_syscalls _ _ _)⟩
    | failed errno =>
      dsimp only
      split
      · rename_i fatal
        exact ⟨.fatalError (d := c.write []) live (of_decide_eq_true possible) fatal,
          .write [] (handleError_syscalls _ _)⟩
      · exact ⟨.stays _ (keep_state _ _ _) (opened.failedWrite.keep data []), .write [] (keep_syscalls _ _ _)⟩
  · exact ⟨.stays _ (keep_state _ _ _) (opened.keep data []), .of_eq (keep_syscalls _ _ _)⟩

/-- What `handleWrite` has done when `::write` has accepted bytes: the last of them are followed by the
    half-close if one was asked for. -/
theorem Open.flushed (opened : Open c sent contents) {n : Nat} (le : n ≤ contents.length) :
    ((c.write (contents.take n)).flushed n).conn.state = c.state ∧
    Open ((c.write (contents.take n)).flushed n).conn sent (contents.drop n) ∧
    ((c.state = .kDisconnecting ∧ contents.drop n = [] ∧ ((c.write (contents.take n)).flushed n).conn.syscalls =
        c.syscalls ++ [.write (contents.take n)] ++ [.shutdownWrite]) ∨
      ((c.state = .kDisconnecting → contents.drop n ≠ []) ∧
        ((c.write (contents.take n)).flushed n).conn.syscalls = c.syscalls ++ [.write (contents.take n)])) := by
  have carries := opened.carries.retrieve le
  have intact : accepted (c.syscalls ++ [.write (contents.take n)]) ++ contents.drop n = sent := by
    rw [accepted_append, accepted_write, List.append_assoc, List.take_append_drop]
    exact opened.intact
  by_cases empty : contents.drop n = []
  · have none : (c.outputBuffer.retrieve n).readableBytes = 0 := by rw [carries.length, empty]; rfl
    have idle : c.channel.disableWriting.isWriting = true ↔ contents.drop n ≠ [] := by
      rw [Channel.disableWriting_isWriting, empty]
      decide
    by_cases disconnecting : c.state = .kDisconnecting
    · have conn : ((c.write (contents.take n)).flushed n).conn =
          { c with
            outputBuffer := c.outputBuffer.retrieve n
            channel := c.channel.disableWriting
            syscalls := c.syscalls ++ [.write (contents.take n)] ++ [.shutdownWrite] } := by
        simp [TcpConnection.flushed, TcpConnection.write, none, disconnecting, TcpConnection.shutdownInLoop,
          opened.socket]
      rw [conn]
      refine ⟨rfl, ⟨carries, idle, ?_, opened.socket⟩, .inl ⟨disconnecting, empty, rfl⟩⟩
      rw [accepted_append, accepted_shutdownWrite, List.append_nil]
      exact intact
    · have conn : ((c.write (contents.take n)).flushed n).conn =
          { c with
            outputBuffer := c.outputBuffer.retrieve n
            channel := c.channel.disableWriting
            syscalls := c.syscalls ++ [.write (contents.take n)] } := by
        simp [TcpConnection.flushed, TcpConnection.write, none, disconnecting]
      rw [conn]
      exact ⟨rfl, ⟨carries, idle, intact, opened.socket⟩, .inr ⟨fun state => absurd state disconnecting, rfl⟩⟩
  · have conn : ((c.write (contents.take n)).flushed n).conn =
        { c with
          outputBuffer := c.outputBuffer.retrieve n
          syscalls := c.syscalls ++ [.write (contents.take n)] } := by
      have some : (c.outputBuffer.retrieve n).readableBytes ≠ 0 := by
        rw [carries.length]
        exact fun zero => empty (List.length_eq_zero_iff.mp zero)
      simp [TcpConnection.flushed, TcpConnection.write, some]
    have before : contents ≠ [] := by
      rintro rfl
      exact empty List.drop_nil
    rw [conn]
    exact ⟨rfl, ⟨carries, iff_of_true (opened.writing.mpr before) empty, intact, opened.socket⟩,
      .inr ⟨fun _ => empty, rfl⟩⟩

theorem Open.writeError (opened : Open c sent contents) (err : Nat) :
    After c ((c.write []).handleError err).conn sent ∧ Writes c ((c.write []).handleError err).conn ∧
    (((c.write []).handleError err).conn.state = .kDisconnecting → contents ≠ [] →
      ((c.write []).handleError err).conn.outputBuffer.readable ≠ []) := by
  refine ⟨.handleError (c := c) (d := c.write []) rfl opened.failedWrite err, .write [] (handleError_syscalls _ _), ?_⟩
  unfold TcpConnection.handleError
  split
  · exact fun _ waiting => opened.carries.readable.symm ▸ waiting
  · split
    · intro state
      cases state
    · exact fun _ waiting => opened.carries.readable.symm ▸ waiting

/-- `handleWrite` on an open connection: it only writes, and if it empties the buffer of a connection that is
    shutting down it ends with the half-close. -/
theorem Open.handleWrite (opened : Open c sent contents) {result : WriteResult}
    (possible : result.possible c.outputBuffer.readableBytes = true) :
    After c (c.handleWrite result).conn sent ∧
    (Writes c (c.handleWrite result).conn ∧ ((c.handleWrite result).conn.state = .kDisconnecting →
        contents ≠ [] → (c.handleWrite result).conn.outputBuffer.readable ≠ []) ∨
      ∃ bytes, (c.handleWrite result).conn.syscalls = c.syscalls ++ [.write bytes] ++ [.shutdownWrite] ∧
        accepted (c.syscalls ++ [.write bytes]) = sent ∧ (c.handleWrite result).conn.state = .kDisconnecting ∧
        (c.handleWrite result).conn.channel.isWriting = false) := by
  unfold TcpConnection.handleWrite
  split
  · exact ⟨.stays contents rfl opened, .inl ⟨.of_eq rfl, fun _ waiting => opened.carries.readable.symm ▸ waiting⟩⟩
  · match result, possible with
    | .wrote 0, _ =>
      obtain ⟨after, rest⟩ := opened.writeError EPIPE
      exact ⟨after, .inl rest⟩
    | .failed errno, _ =>
      obtain ⟨after, rest⟩ := opened.writeError errno
      exact ⟨after, .inl rest⟩
    | .wrote (n + 1), possible =>
      have le : n + 1 ≤ contents.length := opened.carries.length ▸ of_decide_eq_true possible
      obtain ⟨state, opened', calls⟩ := opened.flushed le
      rw [opened.carries.readable]
      refine ⟨.stays _ state opened', ?_⟩
      rcases calls with ⟨disconnecting, empty, calls⟩ | ⟨waiting, calls⟩
      · have intact := opened'.intact
        rw [calls, empty, List.append_nil, accepted_append, accepted_shutdownWrite, List.append_nil] at intact
        have idle := opened'.idle empty
        exact .inr ⟨contents.take (n + 1), calls, intact, state.trans disconnecting, idle⟩
      · refine .inl ⟨.write _ calls, fun disconnecting _ nothing => ?_⟩
        exact waiting (state.symm.trans disconnecting) (opened'.carries.readable.symm.trans nothing)

theorem Open.shutdown (opened : Open c sent contents) (connected : c.state = .kConnected) :
    c.shutdown.state = .kDisconnecting ∧ Open c.shutdown sent contents ∧
    (contents = [] ∧ c.shutdown.syscalls = c.syscalls ++ [.shutdownWrite] ∨
      contents ≠ [] ∧ c.shutdown.syscalls = c.syscalls) := by
  unfold TcpConnection.shutdown
  rw [if_pos connected]
  by_cases empty : contents = []
  · rw [TcpConnection.shutdownInLoop, if_pos ⟨opened.socket, opened.idle empty⟩]
    refine ⟨rfl, ⟨opened.carries, opened.writing, ?_, opened.socket⟩, .inl ⟨empty, rfl⟩⟩
    rw [accepted_append, accepted_shutdownWrite, List.append_nil]
    exact opened.intact
  · have busy : c.channel.isWriting = true := opened.writing.mpr empty
    rw [TcpConnection.shutdownInLoop, if_neg (fun idle => by simp [busy] at idle)]
    exact ⟨rfl, opened.congr rfl rfl rfl rfl, .inr ⟨empty, rfl⟩⟩

theorem Open.handleRead (opened : Open c sent contents) (result : ReadResult) :
    After c (c.handleRead result).conn sent := by
  unfold TcpConnection.handleRead
  split
  · exact .stays contents rfl opened
  · split
    · exact .handleClose c sent
    · exact .stays contents rfl (opened.congr rfl rfl rfl rfl)
    · exact .handleError (c := c) rfl opened _

theorem Open.handleSocketError (opened : Open c sent contents) (err : Nat) :
    After c (c.handleSocketError err).conn sent := by
  unfold TcpConnection.handleSocketError
  split
  · exact .handleError (c := c) rfl opened err
  · exact .stays contents rfl opened

/-- A connection is open in `kConnected` and `kDisconnecting`, and asks for no event in `kDisconnected`. -/
inductive Inv (s : Session) : Prop where
  | live (contents : List UInt8) (state : s.conn.state = .kConnected ∨ s.conn.state = .kDisconnecting)
      (opened : Open s.conn s.sent contents)
  | closed (state : s.conn.state = .kDisconnected) (quiet : s.conn.channel.events = kNoneEvent)

variable {s t : Session}

theorem Inv.quiet (inv : Inv s) (off : s.conn.state = .kDisconnected) : s.conn.channel.events = kNoneEvent := by
  cases inv with
  | live _ state _ =>
    rw [off] at state
    rcases state with state | state <;> cases state
  | closed _ quiet => exact quiet

theorem After.inv {d : TcpConnection} (after : After s.conn d sent)
    (live : s.conn.state = .kConnected ∨ s.conn.state = .kDisconnecting) : Inv ⟨d, sent⟩ := by
  cases after with
  | stays contents state opened => exact .live contents (by rw [state]; exact live) opened
  | closes state quiet => exact .closed state quiet

theorem Inv.initial (name : List UInt8) (sockfd : Nat) (writeComplete highWater : Bool) (highWaterMark : Nat) :
    Inv (Session.initial name sockfd writeComplete highWater highWaterMark) := by
  apply Inv.live [] (.inl rfl)
  refine ⟨Buffer.Carries.create kInitialSize, ?_, rfl, Int.natCast_nonneg sockfd⟩
  simp [Session.initial, TcpConnection.connectEstablished, Channel.isWriting, TcpConnection.create, Channel.create,
    Channel.tie, Channel.enableReading, kNoneEvent]

theorem send_eq (c : TcpConnection) (data : List UInt8) (result : WriteResult) :
    c.send data result = if data = [] then { conn := c } else c.sendBuffer data result := rfl

theorem Inv.sendInLoop (inv : Inv s) (data : List UInt8) {result : WriteResult}
    (possible : result.possible data.length = true) :
    Inv ⟨(s.conn.sendInLoop data result).conn, s.sent ++ data⟩ := by
  cases inv with
  | live contents state opened => exact (opened.sendInLoop state data possible).1.inv state
  | closed state quiet =>
    rw [closed_sendInLoop state]
    exact .closed state quiet

theorem Inv.sendBuffer (inv : Inv s) (data : List UInt8) {result : WriteResult}
    (possible : result.possible data.length = true) :
    Inv ⟨(s.conn.sendBuffer data result).conn, if s.conn.state = .kConnected then s.sent ++ data else s.sent⟩ := by
  unfold TcpConnection.sendBuffer
  split
  · exact inv.sendInLoop data possible
  · exact inv

theorem Inv.step (inv : Inv s) {action : Action} (taken : Tcp.step s action = some t) : Inv t := by
  cases action <;> simp only [Tcp.step] at taken
  case sendInLoop data result =>
    split at taken
    · rename_i possible
      cases taken
      exact inv.sendInLoop data possible
    · cases taken
  case send data result =>
    split at taken
    · rename_i possible
      cases taken
      rw [send_eq]
      split
      · rename_i empty
        rw [empty, List.append_nil, ite_self]
        exact inv
      · exact inv.sendBuffer data possible
    · cases taken
  case sendBuffer data result =>
    split at taken
    · rename_i possible
      cases taken
      exact inv.sendBuffer data possible
    · cases taken
  case shutdown =>
    cases taken
    cases inv with
    | live contents state opened =>
      by_cases connected : s.conn.state = .kConnected
      · obtain ⟨state, opened, _⟩ := opened.shutdown connected
        exact .live contents (.inr state) opened
      · rw [TcpConnection.shutdown, if_neg connected]
        exact .live contents state opened
    | closed state quiet =>
      rw [closed_shutdown state]
      exact .closed state quiet
  case handleRead result =>
    cases taken
    cases inv with
    | live contents state opened => exact (opened.handleRead result).inv state
    | closed state quiet =>
      rw [closed_handleRead state]
      exact .closed state quiet
  case handleWrite result =>
    split at taken
    · rename_i possible
      cases taken
      cases inv with
      | live contents state opened => exact (opened.handleWrite possible).1.inv state
      | closed state quiet =>
        rw [closed_handleWrite state]
        exact .closed state quiet
    · cases taken
  case handleError err =>
    cases taken
    cases inv with
    | live contents state opened => exact (opened.handleSocketError err).inv state
    | closed state quiet =>
      rw [closed_handleSocketError state]
      exact .closed state quiet
  case handleClose =>
    cases taken
    exact .closed rfl (Channel.disableAll_events _)
  case connectDestroyed =>
    cases taken
    obtain ⟨state, _, events⟩ := connectDestroyed_frame s.conn inv.quiet
    exact .closed state events

theorem reachable_inv {name : List UInt8} {sockfd : Nat} {writeComplete highWater : Bool} {mark : Nat}
    (run : Reaches step Any (Session.initial name sockfd writeComplete highWater mark) s) : Inv s :=
  run.keeps (Inv.initial _ _ _ _ _) fun _ _ _ inv _ taken => inv.step taken

/-- The bytes the socket has accepted, followed by those in the output buffer, are those that were sent. -/
theorem output_intact {name : List UInt8} {sockfd : Nat} {writeComplete highWater : Bool} {highWaterMark : Nat}
    (run : Reaches step Any (Session.initial name sockfd writeComplete highWater highWaterMark) s)
    (open_ : s.conn.state ≠ .kDisconnected) :
    accepted s.conn.syscalls ++ s.conn.outputBuffer.readable = s.sent := by
  cases reachable_inv run with
  | live contents _ opened =>
    rw [opened.carries.readable]
    exact opened.intact
  | closed state _ => exact absurd state open_

/-- A message that goes out in two parts, the second by `handleWrite`, and another behind what remains. -/
theorem output_intact_partly : ∃ s : Session, s.conn.state = .kConnected ∧
    s.conn.syscalls = [.write [1], .write [2]] ∧ s.conn.outputBuffer.readable = [3, 4] ∧
    accepted s.conn.syscalls ++ s.conn.outputBuffer.readable = s.sent := by
  have ran : (exec step (Session.initial [] 5 true true 2)
      [.sendInLoop [1, 2, 3] (.wrote 1), .handleWrite (.wrote 1), .sendInLoop [4] (.wrote 0)]).map
      (fun s => (s.conn.state, s.conn.syscalls, s.conn.outputBuffer.readable)) =
      some (.kConnected, [.write [1], .write [2]], [3, 4]) := by decide +kernel
  obtain ⟨s, reached, facts⟩ := Option.map_eq_some_iff.mp ran
  simp only [Prod.mk.injEq] at facts
  obtain ⟨state, syscalls, readable⟩ := facts
  exact ⟨s, state, syscalls, readable, output_intact (exec_reaches reached) (by rw [state]; decide)⟩

end Hvnetpp.Tcp
