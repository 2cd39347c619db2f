import Mathlib.Tactic.Common

namespace Hvnetpp

/-- `events_`: whether it has the bits of `kReadEvent` and of `kWriteEvent`. -/
structure Events where
  reading : Bool
  writing : Bool
  deriving DecidableEq, Repr

def kNoneEvent : Events := ⟨false, false⟩

/-- `revents_`, as `epoll_wait` reports it. -/
structure Revents where
  epollin : Bool := false
  epollpri : Bool := false
  epollout : Bool := false
  epollerr : Bool := false
  epollhup : Bool := false
  epollrdhup : Bool := false
  deriving DecidableEq, Repr

/-- `index_`: -1, 1 and 2. -/
inductive Index where
  | unregistered
  | added
  | deleted
  deriving DecidableEq, Repr

/-- A channel with what concerns it in the poller: whether `channels_` maps its descriptor to it, and the
    mask that the epoll set has for it. `failed` records that `Poller::update` aborted or that an assertion
    of `removeChannel` did not hold. -/
structure Channel where
  events : Events
  index : Index
  addedToLoop : Bool
  tied : Bool
  mapped : Bool
  epoll : Option Events
  failed : Bool
  deriving DecidableEq, Repr

inductive EpollOp where
  | add
  | mod
  | del
  deriving DecidableEq, Repr

namespace Channel

def create : Channel :=
  { events := kNoneEvent, index := .unregistered, addedToLoop := false, tied := false,
    mapped := false, epoll := none, failed := false }

def tie (c : Channel) : Channel := { c with tied := true }

def isNoneEvent (c : Channel) : Bool := decide (c.events = kNoneEvent)

def isWriting (c : Channel) : Bool := c.events.writing

def isReading (c : Channel) : Bool := c.events.reading

/-- `Poller::update`: only a failed `EPOLL_CTL_DEL` is survived. -/
def epollCtl (c : Channel) : EpollOp → Channel
  | .add => if c.epoll = none then { c with epoll := some c.events } else { c with failed := true }
  | .mod => if c.epoll = none then { c with failed := true } else { c with epoll := some c.events }
  | .del => { c with epoll := none }

def updateChannel (c : Channel) : Channel :=
  match c.index with
  | .unregistered | .deleted =>
    if c.isNoneEvent then c else { c.epollCtl .add with index := .added, mapped := true }
  | .added => if c.isNoneEvent then { c.epollCtl .del with index := .deleted } else c.epollCtl .mod

def removeChannel (c : Channel) : Channel :=
  let sound := c.mapped && c.isNoneEvent && decide (c.index ≠ .unregistered)
  let c := { c with mapped := false, failed := c.failed || !sound }
  let c := if c.index = .added then c.epollCtl .del else c
  { c with index := .unregistered }

def update (c : Channel) : Channel :=
  if !c.addedToLoop && c.isNoneEvent then c else { c with addedToLoop := true }.updateChannel

/-- The call of `epoll_ctl` that `update` comes to. -/
def issued (c : Channel) : Option EpollOp :=
  if !c.addedToLoop && c.isNoneEvent then none
  else
    match c.index with
    | .unregistered | .deleted => if c.isNoneEvent then none else some .add
    | .added => if c.isNoneEvent then some .del else some .mod

def enableReading (c : Channel) : Channel := { c with events := { c.events with reading := true } }.update

def disableReading (c : Channel) : Channel := { c with events := { c.events with reading := false } }.update

def enableWriting (c : Channel) : Channel := { c with events := { c.events with writing := true } }.update

def disableWriting (c : Channel) : Channel := { c with events := { c.events with writing := false } }.update

def disableAll (c : Channel) : Channel := { c with events := kNoneEvent }.update

def remove (c : Channel) : Channel := if c.addedToLoop then { c with addedToLoop := false }.removeChannel else c

/-- Closing the descriptor takes it out of the epoll set. -/
def close (c : Channel) : Channel := { c with epoll := none }

end Channel

inductive EventCallback where
  | error
  | read
  | write
  deriving DecidableEq, Repr

/-- `handleEventWithGuard` begins with the close callback. -/
def Revents.hangup (revents : Revents) : Bool := revents.epollhup && !revents.epollin

/-- The other callbacks `handleEventWithGuard` calls, in this order. -/
def Revents.callbacks (revents : Revents) : List EventCallback :=
  (if revents.epollerr then [.error] else []) ++
  (if revents.epollin || revents.epollpri || revents.epollrdhup then [.read] else []) ++
  if revents.epollout then [.write] else []

namespace Channel

variable {c : Channel}

theorem epollCtl_events (c : Channel) (op : EpollOp) : (c.epollCtl op).events = c.events := by
  cases op <;> simp only [epollCtl] <;> split <;> rfl

theorem updateChannel_events (c : Channel) : c.updateChannel.events = c.events := by
  unfold updateChannel
  split <;> split <;> first | rfl | exact epollCtl_events _ _

@[simp] theorem update_events (c : Channel) : c.update.events = c.events := by
  unfold update
  split
  · rfl
  · exact updateChannel_events _

@[simp] theorem enableWriting_isWriting (c : Channel) : c.enableWriting.isWriting = true := by
  rw [isWriting, enableWriting, update_events]

@[simp] theorem disableWriting_isWriting (c : Channel) : c.disableWriting.isWriting = false := by
  rw [isWriting, disableWriting, update_events]

@[simp] theorem disableAll_events (c : Channel) : c.disableAll.events = kNoneEvent := by
  rw [disableAll, update_events]

@[simp] theorem remove_events (c : Channel) : c.remove.events = c.events := by
  unfold remove removeChannel
  split
  · dsimp only
    split
    · rw [epollCtl_events]
    · rfl
  · rfl

/-- The channel, the poller and the epoll set agree. -/
structure Agrees (c : Channel) : Prop where
  added : c.index = .added ↔ c.events ≠ kNoneEvent
  epoll : c.epoll = if c.index = .added then some c.events else none
  loop : c.addedToLoop = true ↔ c.index ≠ .unregistered
  mapped : c.mapped = c.addedToLoop
  sound : c.failed = false

theorem Agrees.create : Agrees create := by constructor <;> decide

theorem Agrees.update (agrees : Agrees c) (events : Events) : Agrees ({ c with events := events }.update) := by
  obtain ⟨old, index, addedToLoop, tied, mapped, epoll, failed⟩ := c
  obtain ⟨added, registered, loop, same, sound⟩ := agrees
  simp only at added registered loop same sound
  subst registered same sound
  by_cases none : events = kNoneEvent
  · cases index <;> cases mapped <;> simp_all [Channel.update, updateChannel, isNoneEvent, epollCtl] <;>
      constructor <;> simp_all
  · cases index <;> cases mapped <;> simp_all [Channel.update, updateChannel, isNoneEvent, epollCtl] <;>
      constructor <;> simp_all

theorem Agrees.remove (agrees : Agrees c) (none : c.events = kNoneEvent) : Agrees c.remove := by
  unfold Channel.remove
  split
  · rename_i inLoop
    have listed := agrees.loop.mp inLoop
    have quiet : c.index ≠ .added := fun added => agrees.added.mp added none
    have mapped : c.mapped = true := agrees.mapped.trans inLoop
    have out : c.epoll = Option.none := by rw [agrees.epoll, if_neg quiet]
    constructor <;> simp [removeChannel, isNoneEvent, none, mapped, quiet, out, listed, agrees.sound]
  · exact agrees

/-- With no event enabled `update` registers nothing. -/
theorem issued_none (none : c.events = kNoneEvent) : c.issued = Option.none ∨ c.issued = some .del := by
  simp only [issued, isNoneEvent, none, decide_true, Bool.and_true, ↓reduceIte]
  split
  · exact .inl rfl
  · split
    · exact .inl rfl
    · exact .inl rfl
    · exact .inr rfl

theorem Agrees.tie (agrees : Agrees c) : Agrees c.tie :=
  ⟨agrees.added, agrees.epoll, agrees.loop, agrees.mapped, agrees.sound⟩

theorem Agrees.close (agrees : Agrees c) (none : c.events = kNoneEvent) : Agrees c.close := by
  have quiet : c.index ≠ .added := fun added => agrees.added.mp added none
  exact ⟨agrees.added, (if_neg quiet).symm, agrees.loop, agrees.mapped, agrees.sound⟩

theorem Agrees.registered_iff (agrees : Agrees c) : c.epoll ≠ none ↔ c.events ≠ kNoneEvent := by
  rw [agrees.epoll, ← agrees.added]
  split <;> simp [*]

end Channel

end Hvnetpp
