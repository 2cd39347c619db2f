import Mathlib.Logic.Function.Basic
import Hvnetpp.Channel

namespace Hvnetpp.Server

/-- The descriptors the process has obtained so far, each under a number of its own, and how often each of them
    has been closed. -/
structure Descriptors where
  obtained : Nat
  closings : Nat → Nat

namespace Descriptors

def none : Descriptors := { obtained := 0, closings := fun _ => 0 }

/-- The new descriptor has the number `obtained`. -/
def acquire (d : Descriptors) : Descriptors := { d with obtained := d.obtained + 1 }

def close (d : Descriptors) (fd : Nat) : Descriptors :=
  { d with closings := Function.update d.closings fd (d.closings fd + 1) }

/-- `if (fd >= 0) close(fd);` -/
def closeOpen (d : Descriptors) : Option Nat → Descriptors
  | some fd => d.close fd
  | .none => d

end Descriptors

/-- A member that holds no descriptor is `none`. -/
structure Acceptor where
  acceptSocket : Option Nat
  acceptChannel : Option Channel
  listening : Bool
  idleFd : Option Nat
  deriving DecidableEq, Repr

/-- What `createNonblocking`, `bind` and `listen` come to. -/
inductive ListenResult where
  | socketFailed
  | bindFailed
  | listenFailed
  | listens
  deriving DecidableEq, Repr

namespace Acceptor

/-- `openIdleFd`, which may fail. -/
def openIdleFd (a : Acceptor) (d : Descriptors) (opened : Bool) : Acceptor × Descriptors :=
  if opened then ({ a with idleFd := some d.obtained }, d.acquire) else ({ a with idleFd := none }, d)

def create (d : Descriptors) (opened : Bool) : Acceptor × Descriptors :=
  openIdleFd { acceptSocket := none, acceptChannel := none, listening := false, idleFd := none } d opened

/-- The channel of a socket that listens. -/
def newChannel : Channel := Channel.create.tie.enableReading

def listen (a : Acceptor) (d : Descriptors) (result : ListenResult) : Bool × Acceptor × Descriptors :=
  if a.listening then (true, a, d)
  else
    match result with
    | .socketFailed => (false, a, d)
    | .bindFailed | .listenFailed => (false, a, d.acquire.close d.obtained)
    | .listens =>
      (true, { a with acceptSocket := some d.obtained, acceptChannel := some newChannel, listening := true }, d.acquire)

/-- The answer of `handleRead` to `EMFILE`: the idle descriptor makes room for one connection, which is closed. -/
def shed (a : Acceptor) (d : Descriptors) (accepted reopened : Bool) : Acceptor × Descriptors :=
  let d := d.closeOpen a.idleFd
  openIdleFd a (if accepted then d.acquire.close d.obtained else d) reopened

/-- An attempt that fails leaves the acceptor as it was and its socket, if it got one, closed. -/
theorem listen_cases (a : Acceptor) (d : Descriptors) (result : ListenResult) :
    (a.listen d result = (true, a, d) ∧ a.listening = true) ∨
    (a.listening = false ∧ (a.listen d result = (false, a, d) ∨
      a.listen d result = (false, a, d.acquire.close d.obtained) ∨
      a.listen d result = (true, { a with acceptSocket := some d.obtained, acceptChannel := some newChannel,
                                          listening := true }, d.acquire))) := by
  unfold listen
  cases listening : a.listening with
  | true => exact .inl ⟨rfl, rfl⟩
  | false =>
    apply Or.inr
    cases result with
    | socketFailed => exact ⟨rfl, .inl rfl⟩
    | bindFailed => exact ⟨rfl, .inr (.inl rfl)⟩
    | listenFailed => exact ⟨rfl, .inr (.inl rfl)⟩
    | listens => exact ⟨rfl, .inr (.inr rfl)⟩

end Acceptor

end Hvnetpp.Server
