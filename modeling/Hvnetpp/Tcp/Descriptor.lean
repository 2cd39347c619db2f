import Hvnetpp.Tcp.Lifecycle

namespace Hvnetpp

/-- The channel is in `channels_` or in the epoll set. -/
def Channel.registered (c : Channel) : Bool := c.mapped || c.epoll.isSome

theorem Channel.disableAll_addedToLoop {c : Channel} (out : c.addedToLoop = false) :
    c.disableAll.addedToLoop = false := by
  simp [Channel.disableAll, Channel.update, Channel.isNoneEvent, out]

theorem Channel.remove_addedToLoop (c : Channel) : c.remove.addedToLoop = false := by
  unfold Channel.remove
  split
  · simp only [Channel.removeChannel]
    split <;> rfl
  · rename_i out
    exact eq_false_of_ne_true out

/-- With no event enabled a channel that is not in the loop is registered nowhere. -/
theorem Channel.Agrees.unregistered {c : Channel} (agrees : c.Agrees) (none : c.events = kNoneEvent)
    (out : c.addedToLoop = false) : c.registered = false := by
  have mapped : c.mapped = false := agrees.mapped.trans out
  have epoll : c.epoll = Option.none := by
    by_contra listens
    exact agrees.registered_iff.mp listens none
  simp [Channel.registered, mapped, epoll]

namespace Tcp

variable {c d : TcpConnection}

/-- The descriptor that `closeSocket` is still going to close. -/
def TcpConnection.descriptor (c : TcpConnection) : Option Nat :=
  if 0 ≤ c.socketFd then some c.socketFd.toNat else none

/-- A connection without its descriptor is disconnected for good, and its channel has been removed. -/
def Retired (c : TcpConnection) : Prop :=
  c.socketFd < 0 → c.state = .kDisconnected ∧ c.channel.addedToLoop = false

theorem Retired.unregistered (retired : Retired c) (sound : Sound c) (closed : c.socketFd < 0) :
    c.channel.registered = false := by
  obtain ⟨off, out⟩ := retired closed
  exact sound.agrees.unregistered (sound.quiet off) out

/-- The operation closes nothing and does not bring a removed channel back. -/
structure Steady (c d : TcpConnection) : Prop where
  socketFd : d.socketFd = c.socketFd
  removed : c.state = .kDisconnected → c.channel.addedToLoop = false → d.channel.addedToLoop = false

theorem Steady.retired (steady : Steady c d) (kept : Kept c d) (retired : Retired c) : Retired d := by
  intro closed
  rw [steady.socketFd] at closed
  obtain ⟨off, out⟩ := retired closed
  exact ⟨kept.closed off, steady.removed off out⟩

theorem Steady.of_eq (socketFd : d.socketFd = c.socketFd) (channel : d.channel = c.channel) : Steady c d := by
  refine ⟨socketFd, fun _ out => ?_⟩
  rw [channel]
  exact out

theorem Steady.refl (c : TcpConnection) : Steady c c := .of_eq rfl rfl

theorem Steady.live (on : c.state ≠ .kDisconnected) (socketFd : d.socketFd = c.socketFd) : Steady c d :=
  ⟨socketFd, fun off => absurd off on⟩

theorem Steady.disconnect (c : TcpConnection) : Steady c c.disconnect :=
  ⟨rfl, fun _ out => Channel.disableAll_addedToLoop out⟩

theorem Steady.handleClose (c : TcpConnection) : Steady c c.handleClose.conn := by
  refine ⟨?_, fun _ out => Channel.disableAll_addedToLoop out⟩
  simp only [TcpConnection.handleClose, TcpConnection.check]
  split <;> rfl

theorem Steady.handleError (c : TcpConnection) (err : Nat) : Steady c (c.handleError err).conn := by
  unfold TcpConnection.handleError
  split
  · exact .refl c
  · split
    · exact .handleClose c
    · exact .refl c

theorem Steady.handleSocketError (c : TcpConnection) (err : Nat) : Steady c (c.handleSocketError err).conn := by
  unfold TcpConnection.handleSocketError
  split
  · exact .handleError c err
  · exact .refl c

theorem Steady.handleRead (c : TcpConnection) (result : ReadResult) : Steady c (c.handleRead result).conn := by
  unfold TcpConnection.handleRead
  split
  · exact .refl c
  · split
    · exact .handleClose c
    · exact .of_eq rfl rfl
    · exact .handleError c _

theorem shutdownInLoop_socketFd (c : TcpConnection) : c.shutdownInLoop.socketFd = c.socketFd := by
  unfold TcpConnection.shutdownInLoop
  split <;> rfl

theorem Steady.shutdown (c : TcpConnection) : Steady c c.shutdown := by
  unfold TcpConnection.shutdown
  split
  · rename_i connected
    apply Steady.live
    · rw [connected]
      decide
    · exact shutdownInLoop_socketFd _
  · exact .refl c

theorem flushed_socketFd (c : TcpConnection) (n : Nat) : (c.flushed n).conn.socketFd = c.socketFd := by
  simp only [TcpConnection.flushed]
  split
  · split
    · exact shutdownInLoop_socketFd _
    · rfl
  · rfl

theorem Steady.handleWrite (c : TcpConnection) (result : WriteResult) : Steady c (c.handleWrite result).conn := by
  unfold TcpConnection.handleWrite
  split
  · exact .refl c
  · rename_i ready
    rw [not_or] at ready
    apply Steady.live ready.1
    split
    · exact (Steady.handleError (c.write []) _).socketFd
    · exact flushed_socketFd (c.write _) _
    · exact (Steady.handleError (c.write []) _).socketFd

theorem keep_socketFd (c : TcpConnection) (remaining : List UInt8) (tasks : List Task) :
    (c.keep remaining tasks).conn.socketFd = c.socketFd := by
  simp only [TcpConnection.keep]
  split
  · split <;> rfl
  · rfl

theorem Steady.sendInLoop (c : TcpConnection) (data : List UInt8) (result : WriteResult) :
    Steady c (c.sendInLoop data result).conn := by
  unfold TcpConnection.sendInLoop
  split
  · exact .refl c
  · rename_i on
    apply Steady.live on
    split
    · split
      · exact keep_socketFd (c.write _) _ _
      · split
        · exact (Steady.handleError (c.write []) _).socketFd
        · exact keep_socketFd (c.write []) _ _
    · exact keep_socketFd c _ _

theorem Steady.sendBuffer (c : TcpConnection) (data : List UInt8) (result : WriteResult) :
    Steady c (c.sendBuffer data result).conn := by
  unfold TcpConnection.sendBuffer
  split
  · exact .sendInLoop c data result
  · exact .refl c

theorem Steady.send (c : TcpConnection) (data : List UInt8) (result : WriteResult) :
    Steady c (c.send data result).conn := by
  unfold TcpConnection.send
  split
  · exact .refl c
  · exact .sendBuffer c data result

theorem Steady.descriptor (steady : Steady c d) : d.descriptor = c.descriptor := by
  unfold TcpConnection.descriptor
  rw [steady.socketFd]

theorem release_closed (c : TcpConnection) : c.release.socketFd < 0 := by
  unfold TcpConnection.release TcpConnection.closeSocket
  split
  · show (-1 : Int) < 0
    decide
  · rename_i closed
    exact Int.not_le.mp closed

theorem Retired.release (c : TcpConnection) (off : c.state = .kDisconnected) : Retired c.release := by
  intro _
  unfold TcpConnection.release TcpConnection.closeSocket
  split
  · exact ⟨off, Channel.remove_addedToLoop c.channel⟩
  · exact ⟨off, Channel.remove_addedToLoop c.channel⟩

theorem release_descriptor (c : TcpConnection) : c.release.descriptor = none := by
  unfold TcpConnection.descriptor
  exact if_neg (Int.not_le.mpr (release_closed c))

/-- `connectDestroyed` removes the channel from the poller before it closes the descriptor. -/
theorem Sound.removed (sound : Sound c) (off : c.state = .kDisconnected) : c.channel.remove.registered = false := by
  have none : c.channel.remove.events = kNoneEvent := by
    rw [Channel.remove_events]
    exact sound.quiet off
  exact (sound.agrees.remove (sound.quiet off)).unregistered none (Channel.remove_addedToLoop c.channel)

end Tcp

end Hvnetpp
