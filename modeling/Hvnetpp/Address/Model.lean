import Mathlib.Data.List.TakeWhile
import Hvnetpp.Machine.Objects
import Hvnetpp.Server.Names

namespace Hvnetpp.Address

open Machine Server

def AF_INET : UInt16 := 2

def AF_INET6 : UInt16 := 10

def INET_ADDRSTRLEN : Nat := 16

def INET6_ADDRSTRLEN : Nat := 46

inductive Family where
  | inet
  | inet6
  deriving DecidableEq, Repr

/-- The size of an `in_addr` or an `in6_addr`. -/
def Family.width : Family → Nat
  | .inet => 4
  | .inet6 => 16

def Family.addrStrLen : Family → Nat
  | .inet => INET_ADDRSTRLEN
  | .inet6 => INET6_ADDRSTRLEN

/-- The text before the terminating NUL. -/
abbrev CString := { text : Bytes // 0 ∉ text }

def c_str (text : Bytes) : CString :=
  ⟨cString text, by
    intro member
    have nonzero := List.mem_takeWhile_imp member
    simp at nonzero⟩

/-- What `inet_pton` returns: 1 with the address, 0 or -1. -/
inductive Conversion (family : Family) where
  | converted (address : List.Vector UInt8 family.width)
  | invalid
  | failed

/-- The machine and its C library. `INET_ADDRSTRLEN` and `INET6_ADDRSTRLEN` leave room for every text of
    `inet_ntop` and its NUL. -/
structure Libc where
  order : ByteOrder
  inet_pton : (family : Family) → CString → Conversion family
  inet_ntop : (family : Family) → List.Vector UInt8 family.width → CString
  inet_ntop_fits : ∀ family address, (inet_ntop family address).val.length < family.addrStrLen

/-- The string in a buffer of `size` bytes, empty before the call: `inet_ntop` leaves it alone if there is no room
    for the text and its NUL. -/
def Libc.ntopInto (libc : Libc) (size : Nat) (family : Family) (address : List.Vector UInt8 family.width) : Bytes :=
  if (libc.inet_ntop family address).val.length < size then (libc.inet_ntop family address).val else []

structure SockaddrIn where
  sin_family : UInt16
  sin_port : UInt16
  sin_addr : List.Vector UInt8 4
  sin_zero : List.Vector UInt8 8

structure SockaddrIn6 where
  sin6_family : UInt16
  sin6_port : UInt16
  sin6_flowinfo : List.Vector UInt8 4
  sin6_addr : List.Vector UInt8 16
  sin6_scope_id : List.Vector UInt8 4

/-- `memset(&addr, 0, sizeof addr)`. -/
def SockaddrIn.zero : SockaddrIn :=
  { sin_family := 0, sin_port := 0, sin_addr := .replicate 4 0, sin_zero := .replicate 8 0 }

def SockaddrIn6.zero : SockaddrIn6 :=
  { sin6_family := 0, sin6_port := 0, sin6_flowinfo := .replicate 4 0, sin6_addr := .replicate 16 0,
    sin6_scope_id := .replicate 4 0 }

/-- The bytes of the structure in memory. -/
def SockaddrIn.bytes (order : ByteOrder) (addr : SockaddrIn) : List.Vector UInt8 16 :=
  order.store addr.sin_family ++ (order.store addr.sin_port ++ (addr.sin_addr ++ addr.sin_zero))

def SockaddrIn6.bytes (order : ByteOrder) (addr : SockaddrIn6) : List.Vector UInt8 28 :=
  order.store addr.sin6_family ++ (order.store addr.sin6_port ++
    (addr.sin6_flowinfo ++ (addr.sin6_addr ++ addr.sin6_scope_id)))

/-- The first overload of `fromIpPort`, with what it leaves in `*addr`. -/
def fromIpPort (libc : Libc) (ip : CString) (port : UInt16) (addr : SockaddrIn) : SockaddrIn × Bool :=
  let addr := { addr with sin_family := AF_INET, sin_port := libc.order.htons port }
  match libc.inet_pton .inet ip with
  | .converted address => ({ addr with sin_addr := address }, true)
  | .invalid => (addr, false)
  | .failed => (addr, false)

def fromIpPort6 (libc : Libc) (ip : CString) (port : UInt16) (addr : SockaddrIn6) : SockaddrIn6 × Bool :=
  let addr := { addr with sin6_family := AF_INET6, sin6_port := libc.order.htons port }
  match libc.inet_pton .inet6 ip with
  | .converted address => ({ addr with sin6_addr := address }, true)
  | .invalid => (addr, false)
  | .failed => (addr, false)

/-- A `sockaddr_storage`. The members are read through a pointer to one of the smaller structures. -/
abbrev Storage := List.Vector UInt8 128

namespace Storage

def zero : Storage := .replicate 128 0

def ss_family (order : ByteOrder) (addr : Storage) : UInt16 := order.load (field addr 0 2 (by decide))

def sin_port (order : ByteOrder) (addr : Storage) : UInt16 := order.load (field addr 2 2 (by decide))

def sin6_port (order : ByteOrder) (addr : Storage) : UInt16 := order.load (field addr 2 2 (by decide))

def sin_addr (addr : Storage) : List.Vector UInt8 4 := field addr 4 4 (by decide)

def sin6_addr (addr : Storage) : List.Vector UInt8 16 := field addr 8 16 (by decide)

end Storage

/-- `memcpy(&addr_, &addr, sizeof addr)` to a storage of zeros. -/
def SockaddrIn.stored (order : ByteOrder) (addr : SockaddrIn) : Storage :=
  copyTo Storage.zero (addr.bytes order) (by decide)

def SockaddrIn6.stored (order : ByteOrder) (addr : SockaddrIn6) : Storage :=
  copyTo Storage.zero (addr.bytes order) (by decide)

/-- The string that `detail::sockets::toIp` leaves in a buffer of `size` bytes, empty before the call. -/
def toIp (libc : Libc) (size : Nat) (addr : Storage) : Bytes :=
  if addr.ss_family libc.order = AF_INET then libc.ntopInto size .inet addr.sin_addr
  else if addr.ss_family libc.order = AF_INET6 then libc.ntopInto size .inet6 addr.sin6_addr
  else []

structure InetAddress where
  addr : Storage
  length : Nat
  deriving DecidableEq

namespace InetAddress

def ofLiteral (libc : Libc) (ip : Bytes) (port : UInt16) (ipv6 : Bool) : InetAddress :=
  if ipv6 then
    let parsed := fromIpPort6 libc (c_str ip) port .zero
    if parsed.2 then { addr := parsed.1.stored libc.order, length := 28 }
    else { addr := Storage.zero, length := 0 }
  else
    let parsed := fromIpPort libc (c_str ip) port .zero
    if parsed.2 then { addr := parsed.1.stored libc.order, length := 16 }
    else { addr := Storage.zero, length := 0 }

variable (libc : Libc) (address : InetAddress)

def family : UInt16 := address.addr.ss_family libc.order

def isIpv4 : Bool := decide (address.family libc = AF_INET)

def isIpv6 : Bool := decide (address.family libc = AF_INET6)

def isValid : Bool := decide (address.length ≠ 0) && (address.isIpv4 libc || address.isIpv6 libc)

def toIp : Bytes := Address.toIp libc 64 address.addr

def portNetEndian : UInt16 :=
  if address.isIpv6 libc then address.addr.sin6_port libc.order else address.addr.sin_port libc.order

def toPort : UInt16 := libc.order.ntohs (address.portNetEndian libc)

end InetAddress

/-- What `tryParse` returns, and what it stores in `*result`. -/
def tryParse (libc : Libc) (ip : Bytes) (port : UInt16) (ipv6 : Bool) : Bool × InetAddress :=
  let result := InetAddress.ofLiteral libc ip port ipv6
  (result.isValid libc, result)

end Hvnetpp.Address
