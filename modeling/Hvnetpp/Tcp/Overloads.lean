import Hvnetpp.Buffer.Refinement
import Hvnetpp.Tcp.Output

namespace Hvnetpp.Tcp

/-- What a call of `send` does: to the connection, at once, and through the functors it queues. A functor sends
    its message if the connection is still connected when it runs, which is `sendBuffer`. -/
structure Effect where
  reply : Reply
  functors : List (List UInt8) := []
  deriving DecidableEq, Repr

namespace TcpConnection

variable (c : TcpConnection) (inLoopThread : Bool)

/-- `send(const void*, size_t)`. -/
def sendBytes (data : List UInt8) (result : WriteResult) : Effect :=
  if data = [] then { reply := { conn := c } }
  else if inLoopThread then
    if c.state = .kConnected then { reply := c.sendInLoop data result } else { reply := { conn := c } }
  else if c.state = .kConnected then { reply := { conn := c }, functors := [data] }
  else { reply := { conn := c } }

/-- `send(const std::string&)`. -/
def sendString (message : List UInt8) (result : WriteResult) : Effect := c.sendBytes inLoopThread message result

/-- `send(const Buffer&)`. -/
def sendConstBuffer (buf : Buffer) (result : WriteResult) : Effect := c.sendBytes inLoopThread buf.readable result

/-- `send(Buffer*)`, with what it leaves of the caller's buffer. -/
def sendBufferPtr (buf : Buffer) (result : WriteResult) : Effect × Buffer :=
  if inLoopThread then
    if c.state = .kConnected then ({ reply := c.sendInLoop buf.readable result }, buf.retrieveAll)
    else ({ reply := { conn := c } }, buf)
  else if c.state = .kConnected then
    ({ reply := { conn := c }, functors := [buf.stringAt buf.readableBytes] }, buf.retrieveAsString buf.readableBytes)
  else ({ reply := { conn := c } }, buf)

end TcpConnection

variable {c : TcpConnection} {inLoopThread : Bool} {buf : Buffer} {data : List UInt8} {result : WriteResult}

/-- On the loop thread these are the operations that runs of a connection are made of. -/
theorem sendBytes_inLoop : (c.sendBytes true data result).reply = c.send data result := by
  unfold TcpConnection.sendBytes TcpConnection.send
  split
  · rfl
  · simp only [↓reduceIte]
    split <;> rfl

theorem sendBufferPtr_inLoop (carries : buf.Carries data) :
    (c.sendBufferPtr true buf result).1.reply = c.sendBuffer data result := by
  unfold TcpConnection.sendBufferPtr TcpConnection.sendBuffer
  rw [carries.readable]
  simp only [↓reduceIte]
  split <;> rfl

/-- The caller's buffer is emptied if the connection is connected, and left alone if it is not. -/
theorem sendBufferPtr_buffer (carries : buf.Carries data) :
    (c.state = .kConnected → (c.sendBufferPtr inLoopThread buf result).2.Carries []) ∧
    (c.state ≠ .kConnected → (c.sendBufferPtr inLoopThread buf result).2 = buf) := by
  have length := carries.length
  have all : (buf.retrieveAsString buf.readableBytes).Carries [] := by
    have legal : (Buffer.Op.retrieveAsString buf.readableBytes).Legal buf := Nat.le_refl _
    have emptied := carries.apply legal
    rw [Buffer.Op.deque, length, List.drop_length, ← length] at emptied
    exact emptied
  unfold TcpConnection.sendBufferPtr
  constructor
  · intro connected
    rw [if_pos connected, if_pos connected]
    split
    · exact carries.retrieveAll
    · exact all
  · intro other
    rw [if_neg other, if_neg other]
    split <;> rfl

/-- With nothing to send, `sendInLoop` still calls `::write` when nothing waits. -/
theorem sendInLoop_nil_writes (result : WriteResult) (connected : c.state = .kConnected) (idle : c.channel.isWriting = false)
    (empty : c.outputBuffer.readableBytes = 0) :
    (c.sendInLoop [] result).conn.syscalls = c.syscalls ++ [.write []] := by
  have other : c.state ≠ .kDisconnected := by
    rw [connected]
    intro same
    cases same
  unfold TcpConnection.sendInLoop
  rw [if_neg other, if_pos ⟨idle, empty⟩]
  cases result with
  | wrote n => simp [TcpConnection.keep, TcpConnection.write]
  | failed errno =>
    dsimp only
    split
    · unfold TcpConnection.handleError
      split
      · rfl
      · split
        · show ((c.write []).check _).syscalls = _
          unfold TcpConnection.check
          split <;> rfl
        · rfl
    · rfl

theorem sendInLoop_nil_waits (waits : c.channel.isWriting = true ∨ c.outputBuffer.readableBytes ≠ 0) :
    c.sendInLoop [] result = { conn := c } := by
  have later : ¬ (c.channel.isWriting = false ∧ c.outputBuffer.readableBytes = 0) := by
    intro both
    cases waits with
    | inl writing => rw [both.1] at writing; cases writing
    | inr some => exact some both.2
  unfold TcpConnection.sendInLoop
  rw [if_neg later]
  split <;> rfl

variable (c inLoopThread data) in
/-- The call does not bring an empty message to `::write` or to the loop. -/
def Sendable : Prop :=
  data ≠ [] ∨ c.state ≠ .kConnected ∨
    inLoopThread = true ∧ (c.channel.isWriting = true ∨ c.outputBuffer.readableBytes ≠ 0)

theorem sendBufferPtr_eq_iff (carries : buf.Carries data) :
    (c.sendBufferPtr inLoopThread buf result).1 = c.sendBytes inLoopThread data result ↔
      Sendable c inLoopThread data := by
  have taken : buf.stringAt buf.readableBytes = data := by
    rw [carries.stringAt (Nat.le_refl _), carries.length, List.take_length]
  unfold TcpConnection.sendBufferPtr TcpConnection.sendBytes
  rw [carries.readable, taken]
  by_cases connected : c.state = .kConnected
  · by_cases none : data = []
    · subst none
      simp only [if_pos connected, ↓reduceIte]
      cases inLoopThread with
      | false =>
        -- a functor with nothing to send
        refine iff_of_false (fun same => ?_) ?_
        · cases congrArg Effect.functors same
        · intro sendable
          rcases sendable with some | other | ⟨own, _⟩
          · exact some rfl
          · exact other connected
          · cases own
      | true =>
        by_cases waits : c.channel.isWriting = true ∨ c.outputBuffer.readableBytes ≠ 0
        · refine iff_of_true ?_ (.inr (.inr ⟨rfl, waits⟩))
          simp only [↓reduceIte, sendInLoop_nil_waits waits]
        · refine iff_of_false ?_ ?_
          · intro same
            have idle : c.channel.isWriting = false := by
              rw [← Bool.not_eq_true]
              exact fun writing => waits (.inl writing)
            have empty : c.outputBuffer.readableBytes = 0 := by
              by_contra some
              exact waits (.inr some)
            have written := sendInLoop_nil_writes result connected idle empty
            have kept : (c.sendInLoop [] result).conn.syscalls = c.syscalls :=
              congrArg (fun effect => effect.reply.conn.syscalls) same
            rw [kept] at written
            have lengths := congrArg List.length written
            rw [List.length_append, List.length_singleton] at lengths
            omega
          · intro sendable
            rcases sendable with some | other | ⟨_, waiting⟩
            · exact some rfl
            · exact other connected
            · exact waits waiting
    · refine iff_of_true ?_ (.inl none)
      simp only [if_neg none, if_pos connected]
      split <;> rfl
  · refine iff_of_true ?_ (.inr (.inl connected))
    simp only [if_neg connected]
    split <;> simp only [ite_self]

/-- The overloads do the same exactly if `send(Buffer*)` does not go on with an empty message; that one also
    empties the buffer, if the connection is connected. -/
theorem send_overloads_agree (carries : buf.Carries data) :
    (c.sendString inLoopThread data result = c.sendBytes inLoopThread data result ∧
      c.sendConstBuffer inLoopThread buf result = c.sendBytes inLoopThread data result ∧
      (c.sendBufferPtr inLoopThread buf result).1 = c.sendBytes inLoopThread data result ∧
      (c.state = .kConnected → (c.sendBufferPtr inLoopThread buf result).2.Carries []) ∧
      (c.state ≠ .kConnected → (c.sendBufferPtr inLoopThread buf result).2 = buf)) ↔
    Sendable c inLoopThread data := by
  have constant : c.sendConstBuffer inLoopThread buf result = c.sendBytes inLoopThread data result := by
    unfold TcpConnection.sendConstBuffer
    rw [carries.readable]
  rw [← sendBufferPtr_eq_iff carries]
  constructor
  · intro agree
    exact agree.2.2.1
  · intro same
    exact ⟨rfl, constant, same, sendBufferPtr_buffer carries⟩

def established : TcpConnection :=
  { (TcpConnection.create [] 5).connectEstablished with writeCompleteCallback := true }

theorem send_overloads_agree_short :
    (established.sendBufferPtr true ((Buffer.create 4).append [1, 2]) (.wrote 1)).1 =
      established.sendBytes true [1, 2] (.wrote 1) ∧
    (established.sendBufferPtr true ((Buffer.create 4).append [1, 2]) (.wrote 1)).2.Carries [] := by
  have carries : ((Buffer.create 4).append [1, 2]).Carries [1, 2] := (Buffer.Carries.create 4).append [1, 2]
  have sendable : Sendable established true [1, 2] := .inl (List.cons_ne_nil _ _)
  obtain ⟨_, _, same, emptied, _⟩ := (send_overloads_agree carries).mpr sendable
  exact ⟨same, emptied rfl⟩

/-- An empty message is dropped by the others, but `send(Buffer*)` passes it to `::write` and reports a complete
    write, closes the connection on an error, and queues a functor from another thread. -/
theorem empty_message_differs :
    established.sendBytes true [] (.wrote 0) = { reply := { conn := established } } ∧
    (established.sendBufferPtr true (Buffer.create 4) (.wrote 0)).1 =
      { reply := { conn := established.write [], tasks := [.writeComplete] } } ∧
    (established.sendBytes true [] (.failed EPIPE)).reply.conn.state = .kConnected ∧
    (established.sendBufferPtr true (Buffer.create 4) (.failed EPIPE)).1.reply.conn.state = .kDisconnected ∧
    (established.sendBytes false [] (.wrote 0)).functors = [] ∧
    (established.sendBufferPtr false (Buffer.create 4) (.wrote 0)).1.functors = [[]] := by
  refine ⟨rfl, ?_, rfl, ?_, rfl, ?_⟩
  · decide +kernel
  · decide +kernel
  · decide +kernel

end Hvnetpp.Tcp
