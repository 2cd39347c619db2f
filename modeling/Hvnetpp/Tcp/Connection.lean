import Hvnetpp.Buffer.Model
import Hvnetpp.Channel

namespace Hvnetpp.Tcp

inductive StateE where
  | kDisconnected
  | kConnecting
  | kConnected
  | kDisconnecting
  deriving DecidableEq, Repr

def EINTR : Nat := 4

def EAGAIN : Nat := 11

def EWOULDBLOCK : Nat := EAGAIN

def EPIPE : Nat := 32

inductive WriteResult where
  | wrote (n : Nat)
  | failed (errno : Nat)
  deriving DecidableEq, Repr

/-- `::write` never reports more than it was given, and sets `errno` when it fails. -/
def WriteResult.possible (len : Nat) : WriteResult → Bool
  | .wrote n => decide (n ≤ len)
  | .failed errno => decide (0 < errno)

/-- What `readv` delivers; no bytes are the end of the stream. -/
inductive ReadResult where
  | data (bytes : List UInt8)
  | failed (errno : Nat)
  deriving DecidableEq, Repr

/-- The calls on the socket that concern its output, a `::write` with the bytes it accepted. -/
inductive Syscall where
  | write (accepted : List UInt8)
  | shutdownWrite
  deriving DecidableEq, Repr

/-- `syscalls` is history. `failed` records that an assertion did not hold, and `closeCallback` is the
    server whose `removeConnection` it calls. -/
structure TcpConnection where
  name : List UInt8
  state : StateE
  channel : Channel
  socketFd : Int
  writeCompleteCallback : Bool
  highWaterMarkCallback : Bool
  closeCallback : Option Nat
  highWaterMark : Nat
  inputBuffer : Buffer
  outputBuffer : Buffer
  syscalls : List Syscall
  failed : Bool
  deriving DecidableEq, Repr

inductive Task where
  | writeComplete
  | highWaterMark (level : Nat)
  deriving DecidableEq, Repr

/-- The callbacks of the user that a member function ends with: none, `messageCallback_`, or those of
    `handleClose`. -/
inductive Next where
  | done
  | message
  | closing
  deriving DecidableEq, Repr

structure Reply where
  conn : TcpConnection
  tasks : List Task := []
  next : Next := .done
  deriving DecidableEq, Repr

namespace TcpConnection

def create (name : List UInt8) (sockfd : Int) : TcpConnection :=
  { name := name, state := .kConnecting, channel := .create, socketFd := sockfd, writeCompleteCallback := false,
    highWaterMarkCallback := false, closeCallback := none, highWaterMark := 64 * 1024 * 1024,
    inputBuffer := .create kInitialSize, outputBuffer := .create kInitialSize, syscalls := [], failed := false }

def check (c : TcpConnection) (holds : Prop) [Decidable holds] : TcpConnection :=
  if holds then c else { c with failed := true }

/-- `connectEstablished` up to its callback. -/
def connectEstablished (c : TcpConnection) : TcpConnection :=
  { c.check (c.state = .kConnecting) with state := .kConnected, channel := c.channel.tie.enableReading }

def closeSocket (c : TcpConnection) : TcpConnection :=
  if 0 ≤ c.socketFd then { c with socketFd := -1, channel := c.channel.close } else c

/-- `connectDestroyed` up to its callback, if the connection is not disconnected yet. -/
def disconnect (c : TcpConnection) : TcpConnection :=
  { c with state := .kDisconnected, channel := c.channel.disableAll }

/-- The rest of `connectDestroyed`. -/
def release (c : TcpConnection) : TcpConnection := { c with channel := c.channel.remove }.closeSocket

def connectDestroyed (c : TcpConnection) : TcpConnection :=
  if c.state ≠ .kDisconnected then c.disconnect.release else c.release

/-- `handleClose` up to its callbacks. -/
def handleClose (c : TcpConnection) : Reply :=
  { conn := { c.check (c.state = .kConnected ∨ c.state = .kDisconnecting) with
      state := .kDisconnected
      channel := c.channel.disableAll }
    next := .closing }

/-- `handleError(int)`. -/
def handleError (c : TcpConnection) (err : Nat) : Reply :=
  if err = 0 ∨ err = EAGAIN ∨ err = EWOULDBLOCK ∨ err = EINTR then { conn := c }
  else if c.state = .kConnected ∨ c.state = .kDisconnecting then c.handleClose
  else { conn := c }

/-- `handleError()`, with what it reads from `SO_ERROR`. -/
def handleSocketError (c : TcpConnection) (err : Nat) : Reply := if err ≠ 0 then c.handleError err else { conn := c }

def handleRead (c : TcpConnection) (result : ReadResult) : Reply :=
  if c.state = .kDisconnected then { conn := c }
  else
    match result with
    | .data [] => c.handleClose
    | .data bytes => { conn := { c with inputBuffer := c.inputBuffer.readFd bytes }, next := .message }
    | .failed errno => c.handleError errno

def shutdownInLoop (c : TcpConnection) : TcpConnection :=
  if 0 ≤ c.socketFd ∧ c.channel.isWriting = false then { c with syscalls := c.syscalls ++ [.shutdownWrite] } else c

def shutdown (c : TcpConnection) : TcpConnection :=
  if c.state = .kConnected then { c with state := .kDisconnecting }.shutdownInLoop else c

def write (c : TcpConnection) (bytes : List UInt8) : TcpConnection :=
  { c with syscalls := c.syscalls ++ [.write bytes] }

/-- `handleWrite` after a `::write` that has accepted `n` bytes. -/
def flushed (c : TcpConnection) (n : Nat) : Reply :=
  let c := { c with outputBuffer := c.outputBuffer.retrieve n }
  if c.outputBuffer.readableBytes = 0 then
    let c := { c with channel := c.channel.disableWriting }
    { conn := if c.state = .kDisconnecting then c.shutdownInLoop else c
      tasks := if c.writeCompleteCallback then [.writeComplete] else [] }
  else { conn := c }

def handleWrite (c : TcpConnection) (result : WriteResult) : Reply :=
  if c.state = .kDisconnected ∨ c.channel.isWriting = false then { conn := c }
  else
    match result with
    | .wrote 0 => (c.write []).handleError EPIPE
    | .wrote n => (c.write (c.outputBuffer.readable.take n)).flushed n
    | .failed errno => (c.write []).handleError errno

/-- The part of `sendInLoop` that keeps what `::write` has not accepted. -/
def keep (c : TcpConnection) (remaining : List UInt8) (tasks : List Task) : Reply :=
  if 0 < remaining.length then
    let oldLen := c.outputBuffer.readableBytes
    let level := oldLen + remaining.length
    let tasks :=
      if c.highWaterMark ≤ level ∧ oldLen < c.highWaterMark ∧ c.highWaterMarkCallback then
        tasks ++ [.highWaterMark level]
      else tasks
    let c := { c with outputBuffer := c.outputBuffer.append remaining }
    { conn := if c.channel.isWriting then c else { c with channel := c.channel.enableWriting }, tasks := tasks }
  else { conn := c, tasks := tasks }

def sendInLoop (c : TcpConnection) (data : List UInt8) (result : WriteResult) : Reply :=
  if c.state = .kDisconnected then { conn := c }
  else if c.channel.isWriting = false ∧ c.outputBuffer.readableBytes = 0 then
    match result with
    | .wrote n =>
      let tasks := if data.length - n = 0 ∧ c.writeCompleteCallback then [.writeComplete] else []
      (c.write (data.take n)).keep (data.drop n) tasks
    | .failed errno =>
      if errno ≠ EWOULDBLOCK ∧ errno ≠ EAGAIN ∧ errno ≠ EINTR then (c.write []).handleError errno
      else (c.write []).keep data []
  else c.keep data []

/-- `send(const void*, size_t)` on the loop thread; `send(const std::string&)` and `send(const Buffer&)` call
    it. -/
def send (c : TcpConnection) (data : List UInt8) (result : WriteResult) : Reply :=
  if data = [] then { conn := c }
  else if c.state = .kConnected then c.sendInLoop data result
  else { conn := c }

/-- `send(Buffer*)` on the loop thread with the readable bytes of the buffer, and the functors that `send`
    queues from other threads. -/
def sendBuffer (c : TcpConnection) (data : List UInt8) (result : WriteResult) : Reply :=
  if c.state = .kConnected then c.sendInLoop data result else { conn := c }

end TcpConnection

end Hvnetpp.Tcp
