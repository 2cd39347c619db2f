import Hvnetpp.Udp.Model

namespace Hvnetpp.Udp

open Machine

def AF_UNSPEC : UInt16 := 0

/-- A `UdpSocket` that only the loop thread calls. `kernel` maps a descriptor that is open to whether `::bind` has
    succeeded on it, and `channels` has the channels that were made, by number. -/
structure UdpSocket where
  family : UInt16
  sockfd : Int
  state : SocketState
  channel : Option Nat
  numChannels : Nat
  channels : Nat → Channel
  kernel : Nat → Option Bool
  queue : List Functor

namespace UdpSocket

def create (kernel : Nat → Option Bool) : UdpSocket :=
  { family := AF_UNSPEC, sockfd := -1, state := .closed, channel := none, numChannels := 0,
    channels := fun _ => .create, kernel := kernel, queue := [] }

/-- `cleanupUdpSocket`, which runs its lambda at once. -/
def cleanup (u : UdpSocket) (channel : Option Nat) (sockfd : Int) : UdpSocket :=
  let removed := match channel with
    | some channel => { u with
        channels := Function.update u.channels channel (u.channels channel).disableAll.remove
        queue := u.queue ++ [.keep channel] }
    | none => u
  if 0 ≤ sockfd then { removed with kernel := Function.update removed.kernel sockfd.toNat none } else removed

/-- `socket` is what `::socket` returns, `none` standing for -1. -/
def ensureSocket (u : UdpSocket) (family : UInt16) (socket : Option Nat) : UdpSocket × Bool :=
  if 0 ≤ u.sockfd then (u, decide (u.family = family))
  else
    match socket with
    | none => ({ u with sockfd := -1 }, false)
    | some sockfd =>
      ({ u with
          sockfd := sockfd
          family := family
          state := .opened
          channel := some u.numChannels
          numChannels := u.numChannels + 1
          kernel := Function.update u.kernel sockfd (some false) }, true)

def open_ (u : UdpSocket) (family : UInt16) (socket : Option Nat) : UdpSocket × Bool := u.ensureSocket family socket

/-- What `bind` does once `ensureSocket` has returned true; `bound` is whether `::bind` succeeds. -/
def bindOpened (u : UdpSocket) (createdSocket bound : Bool) : UdpSocket × Bool :=
  if bound then
    let u := { u with kernel := Function.update u.kernel u.sockfd.toNat (some true) }
    (if u.state = .receiving then u else { u with state := .bound }, true)
  else if createdSocket then
    ({ u with channel := none, family := AF_UNSPEC, sockfd := -1, state := .closed }.cleanup u.channel u.sockfd, false)
  else (u, false)

def bind (u : UdpSocket) (family : UInt16) (socket : Option Nat) (bound : Bool) : UdpSocket × Bool :=
  let ensured := u.ensureSocket family socket
  if ensured.2 then ensured.1.bindOpened (decide (u.sockfd < 0)) bound else (ensured.1, false)

def isBound (u : UdpSocket) : Bool := decide (u.state = .bound) || decide (u.state = .receiving)

def startReceive (u : UdpSocket) : UdpSocket × Bool :=
  match u.channel with
  | none => (u, false)
  | some channel =>
    if !u.isBound then (u, false)
    else if u.state = .receiving then (u, true)
    else
      ({ u with
          state := .receiving
          channels := Function.update u.channels channel (u.channels channel).enableReading }, true)

def bindAndStart (u : UdpSocket) (family : UInt16) (socket : Option Nat) (bound : Bool) : UdpSocket × Bool :=
  let named := u.bind family socket bound
  if named.2 then named.1.startReceive else (named.1, false)

def stopReceive (u : UdpSocket) : UdpSocket :=
  match u.channel with
  | none => u
  | some channel =>
    { u with
      state := if u.state = .receiving then .bound else u.state
      channels := Function.update u.channels channel (u.channels channel).disableReading }

/-- `sent` is what `::sendto` returns. -/
def sendTo (u : UdpSocket) (family : UInt16) (socket : Option Nat) (sent : Int) : UdpSocket × Int :=
  let ensured := u.ensureSocket family socket
  (ensured.1, if ensured.2 then sent else -1)

end UdpSocket

/-- A call, with the outcomes of its system calls. -/
inductive Op where
  | open_ (family : UInt16) (socket : Option Nat)
  | bind (family : UInt16) (socket : Option Nat) (bound : Bool)
  | bindAndStart (family : UInt16) (socket : Option Nat) (bound : Bool)
  | startReceive
  | stopReceive
  | sendTo (family : UInt16) (socket : Option Nat) (sent : Int)
  deriving DecidableEq, Repr

inductive Returned where
  | nothing
  | flag (value : Bool)
  | size (value : Int)
  deriving DecidableEq, Repr

def Op.apply (u : UdpSocket) : Op → UdpSocket × Returned
  | .open_ family socket => (u.open_ family socket).map id .flag
  | .bind family socket bound => (u.bind family socket bound).map id .flag
  | .bindAndStart family socket bound => (u.bindAndStart family socket bound).map id .flag
  | .startReceive => u.startReceive.map id .flag
  | .stopReceive => (u.stopReceive, .nothing)
  | .sendTo family socket sent => (u.sendTo family socket sent).map id .size

namespace UdpSocket

def step (u : UdpSocket) (op : Op) : Option UdpSocket := some (op.apply u).1

/-- What `::socket` may return: a descriptor that was not open, and none for `AF_UNSPEC`. -/
def Grants (u : UdpSocket) (family : UInt16) (socket : Option Nat) : Prop :=
  ∀ sockfd ∈ socket, family ≠ AF_UNSPEC ∧ u.kernel sockfd = none

def Possible (u : UdpSocket) : Op → Prop
  | .open_ family socket => u.Grants family socket
  | .bind family socket _ => u.Grants family socket
  | .bindAndStart family socket _ => u.Grants family socket
  | .sendTo family socket _ => u.Grants family socket
  | .startReceive => True
  | .stopReceive => True

instance (u : UdpSocket) (family : UInt16) (socket : Option Nat) : Decidable (u.Grants family socket) :=
  inferInstanceAs (Decidable (∀ sockfd ∈ socket, family ≠ AF_UNSPEC ∧ u.kernel sockfd = none))

instance (u : UdpSocket) : (op : Op) → Decidable (u.Possible op)
  | .open_ family socket => inferInstanceAs (Decidable (u.Grants family socket))
  | .bind family socket _ => inferInstanceAs (Decidable (u.Grants family socket))
  | .bindAndStart family socket _ => inferInstanceAs (Decidable (u.Grants family socket))
  | .sendTo family socket _ => inferInstanceAs (Decidable (u.Grants family socket))
  | .startReceive => inferInstanceAs (Decidable True)
  | .stopReceive => inferInstanceAs (Decidable True)

structure Consistent (u : UdpSocket) : Prop where
  sockfd : u.state = .closed ↔ u.sockfd < 0
  channel : u.state = .closed ↔ u.channel = none
  family : u.state = .closed ↔ u.family = AF_UNSPEC
  bound : u.state = .bound ∨ u.state = .receiving → u.kernel u.sockfd.toNat = some true

/-- The call that leads from `u` to `t` changed nothing, and left no descriptor open. -/
structure Unchanged (u t : UdpSocket) : Prop where
  state : t.state = u.state
  sockfd : t.sockfd = u.sockfd
  family : t.family = u.family
  channel : t.channel = u.channel
  interest : ∀ channel ∈ u.channel, (t.channels channel).events = (u.channels channel).events
  kernel : t.kernel = u.kernel

theorem Unchanged.refl (u : UdpSocket) : Unchanged u u := ⟨rfl, rfl, rfl, rfl, fun _ _ => rfl, rfl⟩

/-- The only negative value of `sockfd_` is -1. -/
structure Inv (u : UdpSocket) : Prop extends Consistent u where
  negative : u.sockfd < 0 → u.sockfd = -1

variable {u t : UdpSocket} {family : UInt16} {socket : Option Nat} {bound : Bool}

/-- A socket that is open is consistent if none of the members says otherwise. -/
theorem Inv.of_open (opened : u.state ≠ .closed) (sockfd : 0 ≤ u.sockfd) (channel : u.channel ≠ none)
    (family : u.family ≠ AF_UNSPEC)
    (bound : u.state = .bound ∨ u.state = .receiving → u.kernel u.sockfd.toNat = some true) : Inv u where
  sockfd := iff_of_false opened (by omega)
  channel := iff_of_false opened channel
  family := iff_of_false opened family
  bound := bound
  negative := by
    intro below
    omega

theorem Inv.of_closed (closed : u.state = .closed) (sockfd : u.sockfd = -1) (channel : u.channel = none)
    (family : u.family = AF_UNSPEC) : Inv u where
  sockfd := iff_of_true closed (by omega)
  channel := iff_of_true closed channel
  family := iff_of_true closed family
  bound := by
    intro named
    rw [closed] at named
    cases named with
    | inl bound => cases bound
    | inr receiving => cases receiving
  negative := fun _ => sockfd

theorem Inv.opened (inv : Inv u) (sockfd : 0 ≤ u.sockfd) :
    u.state ≠ .closed ∧ u.channel ≠ none ∧ u.family ≠ AF_UNSPEC := by
  have opened : u.state ≠ .closed := by
    intro closed
    have below := inv.sockfd.mp closed
    omega
  exact ⟨opened, fun none => opened (inv.channel.mpr none), fun unspec => opened (inv.family.mpr unspec)⟩

theorem Inv.present (inv : Inv u) {channel : Nat} (present : u.channel = some channel) :
    u.state ≠ .closed ∧ 0 ≤ u.sockfd ∧ u.family ≠ AF_UNSPEC := by
  have opened : u.state ≠ .closed := by
    intro closed
    rw [inv.channel.mp closed] at present
    cases present
  have sockfd := mt inv.sockfd.mpr opened
  exact ⟨opened, by omega, mt inv.family.mpr opened⟩

theorem Inv.closed (inv : Inv u) (negative : u.sockfd < 0) :
    u.state = .closed ∧ u.sockfd = -1 ∧ u.channel = none ∧ u.family = AF_UNSPEC := by
  have closed := inv.sockfd.mpr negative
  exact ⟨closed, inv.negative negative, inv.channel.mp closed, inv.family.mp closed⟩

theorem Inv.create (kernel : Nat → Option Bool) : Inv (create kernel) := Inv.of_closed rfl rfl rfl rfl

/-- The socket that `ensureSocket` makes. -/
def made (u : UdpSocket) (family : UInt16) (sockfd : Nat) : UdpSocket :=
  { u with
    sockfd := sockfd
    family := family
    state := .opened
    channel := some u.numChannels
    numChannels := u.numChannels + 1
    kernel := Function.update u.kernel sockfd (some false) }

/-- `ensureSocket` fails and changes nothing, finds the socket it needs, or makes one. -/
theorem Inv.ensureSocket_cases (inv : Inv u) (family : UInt16) (socket : Option Nat) :
    u.ensureSocket family socket = (u, false) ∨
    (0 ≤ u.sockfd ∧ u.ensureSocket family socket = (u, true)) ∨
    (u.sockfd < 0 ∧ ∃ sockfd, socket = some sockfd ∧ u.ensureSocket family socket = (u.made family sockfd, true)) := by
  unfold ensureSocket
  by_cases opened : 0 ≤ u.sockfd
  · rw [if_pos opened]
    by_cases same : u.family = family
    · exact .inr (.inl ⟨opened, by rw [decide_eq_true same]⟩)
    · exact .inl (by rw [decide_eq_false same])
  · have negative : u.sockfd < 0 := by omega
    rw [if_neg opened]
    cases socket with
    | none => exact .inl (by rw [← inv.negative negative])
    | some sockfd => exact .inr (.inr ⟨negative, sockfd, rfl, rfl⟩)

theorem Inv.made {sockfd : Nat} (known : family ≠ AF_UNSPEC) : Inv (u.made family sockfd) := by
  apply Inv.of_open
  · intro other
    cases other
  · exact Int.natCast_nonneg sockfd
  · intro none
    cases none
  · exact known
  · intro named
    cases named with
    | inl bound => cases bound
    | inr receiving => cases receiving

theorem Inv.ensureSocket (inv : Inv u) (grants : u.Grants family socket) :
    Inv (u.ensureSocket family socket).1 := by
  rcases inv.ensureSocket_cases family socket with refused | ⟨_, present⟩ | ⟨_, sockfd, granted, made⟩
  · rw [refused]
    exact inv
  · rw [present]
    exact inv
  · rw [made]
    exact Inv.made (grants sockfd granted).1

/-- Once `::bind` has succeeded the socket is bound, whatever it was before. -/
theorem Inv.bindOpened (inv : Inv u) (sockfd : 0 ≤ u.sockfd) (createdSocket : Bool) :
    Inv (u.bindOpened createdSocket true).1 ∧ (u.bindOpened createdSocket true).1.isBound = true ∧
    (u.bindOpened createdSocket true).1.channel = u.channel := by
  obtain ⟨opened, channel, family⟩ := inv.opened sockfd
  have named : Function.update u.kernel u.sockfd.toNat (some true) u.sockfd.toNat = some true :=
    Function.update_self _ _ _
  unfold UdpSocket.bindOpened
  simp only [↓reduceIte]
  by_cases receiving : u.state = .receiving
  · rw [if_pos receiving]
    refine ⟨Inv.of_open opened sockfd channel family (fun _ => named), ?_, rfl⟩
    simp only [isBound, receiving, decide_true, Bool.or_true]
  · rw [if_neg receiving]
    refine ⟨Inv.of_open ?_ sockfd channel family (fun _ => named), rfl, rfl⟩
    intro other
    cases other

/-- If `::bind` fails on a socket that was made for it, that socket is taken back. -/
theorem Inv.rollback (inv : Inv u) (negative : u.sockfd < 0) {sockfd : Nat} (unused : u.kernel sockfd = none) :
    ((u.made family sockfd).bindOpened true false).2 = false ∧
    Unchanged u ((u.made family sockfd).bindOpened true false).1 := by
  obtain ⟨closed, minus, none, unspec⟩ := inv.closed negative
  have restored : Function.update (Function.update u.kernel sockfd (some false)) sockfd Option.none = u.kernel := by
    rw [Function.update_idem, ← unused, Function.update_eq_self]
  have back : ((u.made family sockfd).bindOpened true false).1 =
      { u with
        channel := Option.none
        family := AF_UNSPEC
        sockfd := -1
        state := .closed
        numChannels := u.numChannels + 1
        channels := Function.update u.channels u.numChannels (u.channels u.numChannels).disableAll.remove
        queue := u.queue ++ [.keep u.numChannels] } := by
    have nonnegative : 0 ≤ (sockfd : Int) := Int.natCast_nonneg sockfd
    simp only [UdpSocket.bindOpened, Bool.false_eq_true, ↓reduceIte, UdpSocket.made, cleanup, if_pos nonnegative,
      Int.toNat_natCast, restored]
  refine ⟨rfl, ?_⟩
  rw [back]
  refine ⟨closed.symm, minus.symm, unspec.symm, none.symm, ?_, rfl⟩
  intro channel present
  rw [none] at present
  cases present

theorem Unchanged.inv (same : Unchanged u t) (inv : Inv u) : Inv t where
  sockfd := by rw [same.state, same.sockfd]; exact inv.sockfd
  channel := by rw [same.state, same.channel]; exact inv.channel
  family := by rw [same.state, same.family]; exact inv.family
  bound := by rw [same.state, same.sockfd, same.kernel]; exact inv.bound
  negative := by rw [same.sockfd]; exact inv.negative

/-- `bind` returns false and changes nothing, or true and the socket is bound. -/
theorem Inv.bind (inv : Inv u) (grants : u.Grants family socket) (bound : Bool) :
    ((u.bind family socket bound).2 = false ∧ Unchanged u (u.bind family socket bound).1) ∨
    ((u.bind family socket bound).2 = true ∧ Inv (u.bind family socket bound).1 ∧
      (u.bind family socket bound).1.isBound = true ∧ (u.bind family socket bound).1.channel ≠ none) := by
  unfold UdpSocket.bind
  rcases inv.ensureSocket_cases family socket with refused | ⟨present, found⟩ | ⟨negative, sockfd, granted, made⟩
  · rw [refused]
    exact .inl ⟨rfl, Unchanged.refl u⟩
  · have other : ¬ u.sockfd < 0 := by omega
    rw [found, decide_eq_false other]
    cases bound with
    | false => exact .inl ⟨rfl, Unchanged.refl u⟩
    | true =>
      obtain ⟨kept, named, same⟩ := inv.bindOpened present false
      refine .inr ⟨rfl, kept, named, ?_⟩
      show (u.bindOpened false true).1.channel ≠ none
      rw [same]
      exact (inv.opened present).2.1
  · obtain ⟨known, unused⟩ := grants sockfd granted
    rw [made, decide_eq_true negative]
    cases bound with
    | false => exact .inl (inv.rollback negative unused)
    | true =>
      have made : Inv (u.made family sockfd) := Inv.made known
      obtain ⟨kept, named, same⟩ := made.bindOpened (Int.natCast_nonneg sockfd) true
      refine .inr ⟨rfl, kept, named, ?_⟩
      show ((u.made family sockfd).bindOpened true true).1.channel ≠ none
      rw [same]
      intro none
      cases none

/-- `startReceive` fails exactly on a socket that is not bound. -/
theorem Inv.startReceive (inv : Inv u) :
    (u.startReceive.2 = false ∧ u.startReceive.1 = u ∧ u.isBound = false) ∨
    (u.startReceive.2 = true ∧ Inv u.startReceive.1) := by
  unfold UdpSocket.startReceive
  cases present : u.channel with
  | none =>
    have closed := inv.channel.mpr present
    exact .inl ⟨rfl, rfl, by rw [isBound, closed]; rfl⟩
  | some channel =>
    cases named : u.isBound with
    | false => exact .inl ⟨rfl, rfl, rfl⟩
    | true =>
      simp only [Bool.not_true, Bool.false_eq_true, ↓reduceIte]
      by_cases receiving : u.state = .receiving
      · rw [if_pos receiving]
        exact .inr ⟨rfl, inv⟩
      · have bound : u.state = .bound := by
          rw [isBound, decide_eq_false receiving, Bool.or_false] at named
          exact of_decide_eq_true named
        obtain ⟨_, sockfd, family⟩ := inv.present present
        rw [if_neg receiving]
        refine .inr ⟨rfl, Inv.of_open ?_ sockfd (Option.some_ne_none channel) family (fun _ => inv.bound (.inl bound))⟩
        intro other
        cases other

theorem Inv.stopReceive (inv : Inv u) : Inv u.stopReceive := by
  unfold UdpSocket.stopReceive
  cases present : u.channel with
  | none => exact inv
  | some channel =>
    obtain ⟨opened, sockfd, family⟩ := inv.present present
    by_cases receiving : u.state = .receiving
    · rw [if_pos receiving]
      refine Inv.of_open ?_ sockfd (Option.some_ne_none channel) family (fun _ => inv.bound (.inr receiving))
      intro other
      cases other
    · rw [if_neg receiving]
      exact Inv.of_open opened sockfd (Option.some_ne_none channel) family inv.bound

/-- A call that returns false changes nothing; the others keep the members together. -/
theorem Inv.apply (inv : Inv u) (op : Op) (possible : u.Possible op) :
    Inv (op.apply u).1 ∧ ((op.apply u).2 = .flag false → Unchanged u (op.apply u).1) := by
  cases op with
  | open_ family socket =>
    refine ⟨inv.ensureSocket possible, ?_⟩
    intro failed
    have no : (u.ensureSocket family socket).2 = false := Returned.flag.inj failed
    rcases inv.ensureSocket_cases family socket with refused | ⟨_, found⟩ | ⟨_, sockfd, _, made⟩
    · show Unchanged u (u.ensureSocket family socket).1
      rw [refused]
      exact Unchanged.refl u
    · rw [found] at no
      cases no
    · rw [made] at no
      cases no
  | bind family socket bound =>
    rcases inv.bind possible bound with ⟨_, same⟩ | ⟨succeeded, kept, _⟩
    · exact ⟨same.inv inv, fun _ => same⟩
    · refine ⟨kept, ?_⟩
      intro failed
      cases succeeded.symm.trans (Returned.flag.inj failed)
  | bindAndStart family socket bound =>
    simp only [Op.apply, Prod.map, id_eq, bindAndStart]
    rcases inv.bind possible bound with ⟨failed, same⟩ | ⟨succeeded, kept, named, _⟩
    · rw [failed]
      exact ⟨same.inv inv, fun _ => same⟩
    · rw [succeeded]
      -- a socket that was just bound can be started
      rcases kept.startReceive with ⟨_, _, unbound⟩ | ⟨started, receives⟩
      · rw [unbound] at named
        cases named
      · refine ⟨receives, ?_⟩
        intro failed
        cases started.symm.trans (Returned.flag.inj failed)
  | startReceive =>
    rcases inv.startReceive with ⟨_, same, _⟩ | ⟨started, receives⟩
    · show Inv u.startReceive.1 ∧ (_ → Unchanged u u.startReceive.1)
      rw [same]
      exact ⟨inv, fun _ => Unchanged.refl u⟩
    · refine ⟨receives, ?_⟩
      intro failed
      cases started.symm.trans (Returned.flag.inj failed)
  | stopReceive =>
    refine ⟨inv.stopReceive, ?_⟩
    intro other
    cases other
  | sendTo family socket sent =>
    refine ⟨inv.ensureSocket possible, ?_⟩
    intro other
    cases other

/-- Whatever the system calls return, the members of the socket agree, and a call that reports failure has left
    them as they were, with the descriptors that are open. -/
theorem socket_consistent {kernel : Nat → Option Bool} (run : Reaches step Possible (create kernel) u) :
    Consistent u ∧ ∀ op, u.Possible op → (op.apply u).2 = .flag false → Unchanged u (op.apply u).1 := by
  have inv : Inv u := by
    apply run.keeps
    · exact Inv.create kernel
    · intro s op t kept possible taken
      cases taken
      exact (kept.apply op possible).1
  exact ⟨inv.toConsistent, fun op possible => (inv.apply op possible).2⟩

/-- A failed `bind` closes the socket it opened itself, and keeps the one that `sendTo` opened. -/
theorem socket_consistent_sender : ∃ u,
    Unchanged (create fun _ => none) ((Op.bind 2 (some 3) false).apply (create fun _ => none)).1 ∧
    u = ((Op.sendTo 2 (some 3) 5).apply (create fun _ => none)).1 ∧ u.sockfd = 3 ∧
    Unchanged u ((Op.bind 2 none false).apply u).1 := by
  have start : Reaches step Possible (create fun _ => none) (create fun _ => none) := .refl _
  have opens : (create fun _ => none).Possible (.sendTo 2 (some 3) 5) := by decide
  refine ⟨_, (socket_consistent start).2 (.bind 2 (some 3) false) (by decide) rfl, rfl, rfl, ?_⟩
  exact (socket_consistent (start.next opens rfl)).2 (.bind 2 none false) (by decide) rfl

end UdpSocket

end Hvnetpp.Udp
