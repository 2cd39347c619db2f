import Hvnetpp.Tcp.Connection

namespace Hvnetpp.Tcp

variable {c d : TcpConnection} {reply : Reply}

/-- The channel agrees with the poller, and a disconnected connection asks for no event. -/
structure Sound (c : TcpConnection) : Prop where
  agrees : c.channel.Agrees
  quiet : c.state = .kDisconnected → c.channel.events = kNoneEvent

/-- What every operation keeps of a connection. -/
structure Kept (c d : TcpConnection) : Prop where
  name : d.name = c.name
  closeCallback : d.closeCallback = c.closeCallback
  closed : c.state = .kDisconnected → d.state = .kDisconnected
  sound : Sound c → Sound d

theorem Kept.refl (c : TcpConnection) : Kept c c := ⟨rfl, rfl, id, id⟩

theorem Kept.of_eq (name : d.name = c.name) (closeCallback : d.closeCallback = c.closeCallback)
    (state : d.state = c.state) (channel : d.channel = c.channel) : Kept c d := by
  refine ⟨name, closeCallback, fun off => state.trans off, fun sound => ?_⟩
  constructor
  · rw [channel]
    exact sound.agrees
  · rw [state, channel]
    exact sound.quiet

theorem Kept.trans {e : TcpConnection} (first : Kept c d) (second : Kept d e) : Kept c e :=
  ⟨second.name.trans first.name, second.closeCallback.trans first.closeCallback,
    fun off => second.closed (first.closed off), fun sound => second.sound (first.sound sound)⟩

theorem Kept.disconnect (c : TcpConnection) : Kept c c.disconnect :=
  ⟨rfl, rfl, fun _ => rfl, fun sound => ⟨sound.agrees.update kNoneEvent, fun _ => Channel.disableAll_events _⟩⟩

theorem Kept.interest (c : TcpConnection) (on : c.state ≠ .kDisconnected) (events : Events) :
    Kept c { c with channel := { c.channel with events := events }.update } :=
  ⟨rfl, rfl, id, fun sound => ⟨sound.agrees.update events, fun off => absurd off on⟩⟩

theorem Kept.handleClose (c : TcpConnection) : Kept c c.handleClose.conn := by
  simp only [TcpConnection.handleClose, TcpConnection.check]
  split
  · exact .disconnect c
  · exact (Kept.disconnect c).trans (.of_eq rfl rfl rfl rfl)

theorem Kept.handleError (c : TcpConnection) (err : Nat) : Kept c (c.handleError err).conn := by
  unfold TcpConnection.handleError
  split
  · exact .refl c
  · split
    · exact .handleClose c
    · exact .refl c

theorem Kept.handleSocketError (c : TcpConnection) (err : Nat) : Kept c (c.handleSocketError err).conn := by
  unfold TcpConnection.handleSocketError
  split
  · exact .handleError c err
  · exact .refl c

theorem Kept.handleRead (c : TcpConnection) (result : ReadResult) : Kept c (c.handleRead result).conn := by
  unfold TcpConnection.handleRead
  split
  · exact .refl c
  · split
    · exact .handleClose c
    · exact .of_eq rfl rfl rfl rfl
    · exact .handleError c _

theorem Kept.write (c : TcpConnection) (bytes : List UInt8) : Kept c (c.write bytes) := .of_eq rfl rfl rfl rfl

theorem Kept.shutdownInLoop (c : TcpConnection) : Kept c c.shutdownInLoop := by
  unfold TcpConnection.shutdownInLoop
  split
  · exact .of_eq rfl rfl rfl rfl
  · exact .refl c

theorem Kept.shutdown (c : TcpConnection) : Kept c c.shutdown := by
  unfold TcpConnection.shutdown
  split
  · rename_i connected
    have begun : Kept c { c with state := .kDisconnecting } := by
      refine ⟨rfl, rfl, fun off => ?_, fun sound => ⟨sound.agrees, fun off => nomatch off⟩⟩
      rw [off] at connected
      cases connected
    exact begun.trans (.shutdownInLoop _)
  · exact .refl c

theorem Kept.flushed (c : TcpConnection) (on : c.state ≠ .kDisconnected) (n : Nat) :
    Kept c (c.flushed n).conn := by
  have retrieved : Kept c { c with outputBuffer := c.outputBuffer.retrieve n } := .of_eq rfl rfl rfl rfl
  simp only [TcpConnection.flushed]
  split
  · have drained := retrieved.trans (Kept.interest { c with outputBuffer := c.outputBuffer.retrieve n } on
      { c.channel.events with writing := false })
    split
    · exact drained.trans (.shutdownInLoop _)
    · exact drained
  · exact retrieved

theorem Kept.handleWrite (c : TcpConnection) (result : WriteResult) : Kept c (c.handleWrite result).conn := by
  unfold TcpConnection.handleWrite
  split
  · exact .refl c
  · rename_i ready
    rw [not_or] at ready
    split
    · exact (Kept.write c []).trans (.handleError _ _)
    · exact (Kept.write c _).trans (.flushed (c.write _) ready.1 _)
    · exact (Kept.write c []).trans (.handleError _ _)

theorem Kept.keep (c : TcpConnection) (on : c.state ≠ .kDisconnected) (remaining : List UInt8)
    (tasks : List Task) : Kept c (c.keep remaining tasks).conn := by
  have appended : Kept c { c with outputBuffer := c.outputBuffer.append remaining } := .of_eq rfl rfl rfl rfl
  unfold TcpConnection.keep
  split
  · dsimp only
    split
    · exact appended
    · exact appended.trans (Kept.interest { c with outputBuffer := c.outputBuffer.append remaining } on
        { c.channel.events with writing := true })
  · exact .refl c

theorem Kept.sendInLoop (c : TcpConnection) (data : List UInt8) (result : WriteResult) :
    Kept c (c.sendInLoop data result).conn := by
  unfold TcpConnection.sendInLoop
  split
  · exact .refl c
  · rename_i on
    split
    · split
      · exact (Kept.write c _).trans (.keep (c.write _) on _ _)
      · split
        · exact (Kept.write c []).trans (.handleError _ _)
        · exact (Kept.write c []).trans (.keep (c.write []) on _ _)
    · exact .keep c on _ _

theorem Kept.sendBuffer (c : TcpConnection) (data : List UInt8) (result : WriteResult) :
    Kept c (c.sendBuffer data result).conn := by
  unfold TcpConnection.sendBuffer
  split
  · exact .sendInLoop c data result
  · exact .refl c

theorem Kept.send (c : TcpConnection) (data : List UInt8) (result : WriteResult) :
    Kept c (c.send data result).conn := by
  unfold TcpConnection.send
  split
  · exact .refl c
  · exact .sendBuffer c data result

theorem Kept.release (c : TcpConnection) (off : c.state = .kDisconnected) : Kept c c.release := by
  have removed : Kept c { c with channel := c.channel.remove } := by
    refine ⟨rfl, rfl, id, fun sound => ⟨sound.agrees.remove (sound.quiet off), fun _ => ?_⟩⟩
    rw [Channel.remove_events]
    exact sound.quiet off
  unfold TcpConnection.release TcpConnection.closeSocket
  split
  · refine removed.trans ⟨rfl, rfl, id, fun sound => ⟨?_, sound.quiet⟩⟩
    exact sound.agrees.close (sound.quiet off)
  · exact removed

theorem Sound.connectEstablished (name : List UInt8) (sockfd : Int) :
    Sound (TcpConnection.create name sockfd).connectEstablished :=
  ⟨Channel.Agrees.create.tie.update { kNoneEvent with reading := true }, fun off => nomatch off⟩

def TcpConnection.live (c : TcpConnection) : Prop := c.state = .kConnected ∨ c.state = .kDisconnecting

/-- The moves of `state_`, each with the callbacks that follow it. -/
inductive Legal (c : TcpConnection) (reply : Reply) : Prop where
  | done (next : reply.next = .done) (state : reply.conn.state = c.state) (failed : reply.conn.failed = c.failed)
  | message (next : reply.next = .message) (live : c.live) (state : reply.conn.state = c.state)
      (failed : reply.conn.failed = c.failed)
  | closing (next : reply.next = .closing) (live : c.live) (state : reply.conn.state = .kDisconnected)
      (failed : reply.conn.failed = c.failed)

theorem Legal.congr (legal : Legal d reply) (state : d.state = c.state) (failed : d.failed = c.failed) :
    Legal c reply := by
  have same : d.live → c.live := by
    unfold TcpConnection.live
    rw [state]
    exact id
  cases legal with
  | done next kept sound => exact .done next (kept.trans state) (sound.trans failed)
  | message next live kept sound => exact .message next (same live) (kept.trans state) (sound.trans failed)
  | closing next live off sound => exact .closing next (same live) off (sound.trans failed)

theorem Legal.refl (c : TcpConnection) : Legal c { conn := c } := .done rfl rfl rfl

theorem Legal.handleClose (live : c.live) : Legal c c.handleClose := by
  refine .closing rfl live rfl ?_
  have checked : c.check (c.state = .kConnected ∨ c.state = .kDisconnecting) = c := if_pos live
  simp only [TcpConnection.handleClose, checked]

theorem Legal.handleError (c : TcpConnection) (err : Nat) : Legal c (c.handleError err) := by
  unfold TcpConnection.handleError
  split
  · exact .refl c
  · split
    · rename_i live
      exact .handleClose live
    · exact .refl c

theorem Legal.handleSocketError (c : TcpConnection) (err : Nat) : Legal c (c.handleSocketError err) := by
  unfold TcpConnection.handleSocketError
  split
  · exact .handleError c err
  · exact .refl c

theorem live_of_ne (established : c.state ≠ .kConnecting) (on : c.state ≠ .kDisconnected) : c.live := by
  unfold TcpConnection.live
  cases state : c.state <;> simp_all

theorem Legal.handleRead (established : c.state ≠ .kConnecting) (result : ReadResult) :
    Legal c (c.handleRead result) := by
  unfold TcpConnection.handleRead
  split
  · exact .refl c
  · rename_i on
    have live := live_of_ne established on
    split
    · exact .handleClose live
    · exact .message rfl live rfl rfl
    · exact .handleError c _

theorem Legal.flushed (c : TcpConnection) (n : Nat) : Legal c (c.flushed n) := by
  simp only [TcpConnection.flushed, TcpConnection.shutdownInLoop]
  split
  · split
    · split <;> exact .done rfl rfl rfl
    · exact .done rfl rfl rfl
  · exact .done rfl rfl rfl

theorem Legal.handleWrite (c : TcpConnection) (result : WriteResult) : Legal c (c.handleWrite result) := by
  unfold TcpConnection.handleWrite
  split
  · exact .refl c
  · split
    · exact (Legal.handleError (c.write []) _).congr rfl rfl
    · exact (Legal.flushed (c.write _) _).congr rfl rfl
    · exact (Legal.handleError (c.write []) _).congr rfl rfl

theorem Legal.keep (c : TcpConnection) (remaining : List UInt8) (tasks : List Task) :
    Legal c (c.keep remaining tasks) := by
  simp only [TcpConnection.keep]
  split
  · split <;> exact .done rfl rfl rfl
  · exact .done rfl rfl rfl

theorem Legal.sendInLoop (c : TcpConnection) (data : List UInt8) (result : WriteResult) :
    Legal c (c.sendInLoop data result) := by
  unfold TcpConnection.sendInLoop
  split
  · exact .refl c
  · split
    · split
      · exact (Legal.keep (c.write _) _ _).congr rfl rfl
      · split
        · exact (Legal.handleError (c.write []) _).congr rfl rfl
        · exact (Legal.keep (c.write []) _ _).congr rfl rfl
    · exact .keep c _ _

theorem Legal.sendBuffer (c : TcpConnection) (data : List UInt8) (result : WriteResult) :
    Legal c (c.sendBuffer data result) := by
  unfold TcpConnection.sendBuffer
  split
  · exact .sendInLoop c data result
  · exact .refl c

theorem Legal.send (c : TcpConnection) (data : List UInt8) (result : WriteResult) :
    Legal c (c.send data result) := by
  unfold TcpConnection.send
  split
  · exact .refl c
  · exact .sendBuffer c data result

theorem Legal.closes (legal : Legal c reply) (next : reply.next = .closing) :
    reply.conn.state = .kDisconnected := by
  cases legal with
  | done other | message other => cases other.symm.trans next
  | closing _ _ state => exact state

theorem handleRead_closes (result : ReadResult) (next : (c.handleRead result).next = .closing) :
    (c.handleRead result).conn.state = .kDisconnected := by
  unfold TcpConnection.handleRead at next ⊢
  split at next
  · cases next
  · rename_i on
    rw [if_neg on]
    split at next
    · rfl
    · cases next
    · exact Legal.closes (.handleError c _) next

end Hvnetpp.Tcp
