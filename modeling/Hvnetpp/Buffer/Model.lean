import Hvnetpp.Machine.Segment

namespace Hvnetpp

open Machine

def kCheapPrepend : Nat := 8

def kInitialSize : Nat := 1024

/-- The size of `extrabuf` in `readFd`. -/
def extraSize : Nat := 65536

/-- `failed` records that an assertion did not hold. -/
structure Buffer where
  buffer : List UInt8
  readerIndex : Nat
  writerIndex : Nat
  failed : Bool
  deriving DecidableEq, Repr

namespace Buffer

def create (initialSize : Nat) : Buffer :=
  { buffer := List.replicate (kCheapPrepend + initialSize) 0
    readerIndex := kCheapPrepend
    writerIndex := kCheapPrepend
    failed := false }

def check (b : Buffer) (holds : Prop) [Decidable holds] : Buffer := if holds then b else { b with failed := true }

def readableBytes (b : Buffer) : Nat := b.writerIndex - b.readerIndex

def writableBytes (b : Buffer) : Nat := b.buffer.length - b.writerIndex

def prependableBytes (b : Buffer) : Nat := b.readerIndex

/-- The `readableBytes()` bytes from `peek()` on. -/
def readable (b : Buffer) : List UInt8 := segment b.buffer b.readerIndex b.writerIndex

def retrieveAll (b : Buffer) : Buffer := { b with readerIndex := kCheapPrepend, writerIndex := kCheapPrepend }

def retrieve (b : Buffer) (len : Nat) : Buffer :=
  let b := b.check (len ≤ b.readableBytes)
  if len < b.readableBytes then { b with readerIndex := b.readerIndex + len } else b.retrieveAll

/-- What `retrieveAsString` leaves; what it returns is the first `len` bytes of `readable`. -/
def retrieveAsString (b : Buffer) (len : Nat) : Buffer := (b.check (len ≤ b.readableBytes)).retrieve len

/-- `std::vector::resize`. -/
def resize (b : Buffer) (size : Nat) : Buffer :=
  { b with buffer := b.buffer.take size ++ List.replicate (size - b.buffer.length) 0 }

def makeSpace (b : Buffer) (len : Nat) : Buffer :=
  if b.writableBytes + b.prependableBytes < len + kCheapPrepend then b.resize (b.writerIndex + len)
  else
    let b := b.check (kCheapPrepend < b.readerIndex)
    let readable := b.readableBytes
    let b := { b with
      buffer := overwrite b.buffer kCheapPrepend b.readable
      readerIndex := kCheapPrepend
      writerIndex := kCheapPrepend + readable }
    b.check (readable = b.readableBytes)

def ensureWritableBytes (b : Buffer) (len : Nat) : Buffer :=
  let b := if b.writableBytes < len then b.makeSpace len else b
  b.check (len ≤ b.writableBytes)

/-- Bytes stored at `beginWrite()`. -/
def fill (b : Buffer) (data : List UInt8) : Buffer := { b with buffer := overwrite b.buffer b.writerIndex data }

def hasWritten (b : Buffer) (len : Nat) : Buffer :=
  let b := b.check (len ≤ b.writableBytes)
  { b with writerIndex := b.writerIndex + len }

def append (b : Buffer) (data : List UInt8) : Buffer :=
  ((b.ensureWritableBytes data.length).fill data).hasWritten data.length

def prepend (b : Buffer) (data : List UInt8) : Buffer :=
  let b := b.check (data.length ≤ b.prependableBytes)
  { b with
    readerIndex := b.readerIndex - data.length
    buffer := overwrite b.buffer (b.readerIndex - data.length) data }

/-- The room `readFd` offers to `readv`. -/
def offered (b : Buffer) : Nat := b.writableBytes + if b.writableBytes < extraSize then extraSize else 0

/-- `readFd` when `readv` delivers `data`; when it fails the buffer stays as it is. -/
def readFd (b : Buffer) (data : List UInt8) : Buffer :=
  let writable := b.writableBytes
  if data.length ≤ writable then
    { b.fill data with writerIndex := b.writerIndex + data.length }
  else
    { b.fill (data.take writable) with writerIndex := b.buffer.length }.append (data.drop writable)

end Buffer

end Hvnetpp
