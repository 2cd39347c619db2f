import Hvnetpp.Udp.Socket

namespace Hvnetpp.Udp

open Machine

/-- The members of a socket, and the interest of every channel it made. Which number the descriptor has is left
    out. -/
structure Members where
  family : UInt16
  opened : Bool
  state : SocketState
  channel : Option Nat
  numChannels : Nat
  interest : Nat → Events

def UdpSocket.members (u : UdpSocket) : Members :=
  { family := u.family, opened := decide (0 ≤ u.sockfd), state := u.state, channel := u.channel,
    numChannels := u.numChannels, interest := fun channel => (u.channels channel).events }

/-- `AF_UNSPEC`, `AF_INET` and `AF_INET6`. -/
def Family.number : Family → UInt16
  | .unspec => AF_UNSPEC
  | .inet => 2
  | .inet6 => 10

theorem Family.number_inj {first second : Family} : first.number = second.number ↔ first = second := by
  cases first <;> cases second <;> decide

section Sequential

variable {ι : Type}

def State.members (s : State ι) : Members :=
  { family := s.family.number, opened := s.sockfd.isSome, state := s.state, channel := s.channel,
    numChannels := s.numChannels, interest := fun channel => (s.channels channel).events }

/-- The loop thread is at this place of its call, and the members are `m`. -/
structure At (s : State ι) (place : Call) (m : Members) : Prop where
  alive : s.alive = true
  place : s.calls s.threadId = place
  members : s.members = m

theorem interest_update (channels : Nat → Channel) (channel : Nat) (changed : Channel) :
    (fun other => (Function.update channels channel changed other).events) =
      Function.update (fun other => (channels other).events) channel changed.events := by
  funext other
  by_cases same : other = channel
  · subst same
    rw [Function.update_self, Function.update_self]
  · rw [Function.update_of_ne same, Function.update_of_ne same]

def Members.setEvents (m : Members) (channel : Nat) (events : Events) : Members :=
  { m with interest := Function.update m.interest channel events }

def Members.setReading (m : Members) (channel : Nat) (reading : Bool) : Members :=
  m.setEvents channel { m.interest channel with reading := reading }

variable {s : State ι} {m : Members} {place : Call}

theorem At.setReading (at_ : At s place m) (channel : Nat) (opened reading : Bool) :
    At (s.setReading channel opened reading) place (m.setReading channel reading) := by
  refine ⟨at_.alive, at_.place, ?_⟩
  rw [← at_.members]
  simp only [State.members, State.setReading, interest_update, Channel.update_events, Members.setReading,
    Members.setEvents]

theorem At.cleanup (at_ : At s place m) (channel sockfd : Nat) :
    At (s.cleanup (some channel) (some sockfd)) place (m.setEvents channel kNoneEvent) := by
  have closed : ∀ other, (((s.cleanup (some channel) (some sockfd)).channels other).events) =
      (Function.update s.channels channel (s.channels channel).disableAll.remove other).events := by
    intro other
    simp only [State.cleanup, State.close]
    split <;> rfl
  refine ⟨at_.alive, at_.place, ?_⟩
  rw [← at_.members]
  simp only [State.members, closed, interest_update, Channel.remove_events, Channel.disableAll_events,
    Members.setEvents]
  rfl

/-- An access that stores to members goes on at `next`. -/
theorem At.store (at_ : At s place m) {t : State ι} {next : Call} (change : Members → Members)
    (alive : t.alive = s.alive) (there : t.calls t.threadId = next) (members : t.members = change s.members) :
    At t next (change m) :=
  ⟨alive.trans at_.alive, there, members.trans (congrArg change at_.members)⟩

variable [DecidableEq ι]

theorem At.goto (at_ : At s place m) (next : Call) : At (s.goto s.threadId next) next m :=
  ⟨at_.alive, Function.update_self _ _ _, at_.members⟩

theorem runInLoop_own (s : State ι) (place : Call) (functor : Functor) :
    (s.goto s.threadId place).runInLoop s.threadId functor = (s.goto s.threadId place).execute functor :=
  if_pos rfl

variable (ι) in
/-- From that place on the call leaves the members `after`, if no other thread takes a step. -/
def Ends (place : Call) (m after : Members) : Prop :=
  ∀ s : State ι, At s place m → ∃ t, Reaches step Any s t ∧ At t .outside after

variable {after : Members}

theorem Ends.outside (m : Members) : Ends ι .outside m m := fun s at_ => ⟨s, .refl s, at_⟩

theorem Ends.advance (succeeds : Bool)
    (moves : ∀ s : State ι, At s place m → ∃ t next changed, step s (.advance s.threadId succeeds) = some t ∧
      At t next changed ∧ Ends ι next changed after) : Ends ι place m after := by
  intro s at_
  obtain ⟨t, next, changed, taken, there, ends⟩ := moves s at_
  obtain ⟨last, run, left⟩ := ends t there
  exact ⟨last, ((Reaches.refl s).next trivial taken).trans run, left⟩

variable {channel : Nat} {opened : Bool}

theorem Ends.start {place : Starting} (moves : ∀ s : State ι, At s (.starting place channel opened) m →
      ∃ next changed, At (s.start s.threadId channel opened place) next changed ∧ Ends ι next changed after) :
    Ends ι (.starting place channel opened) m after := by
  apply Ends.advance true
  intro s at_
  obtain ⟨next, changed, there, ends⟩ := moves s at_
  exact ⟨_, next, changed, by rw [step, at_.place], there, ends⟩

theorem Ends.stop {place : Stopping} (moves : ∀ s : State ι, At s (.stopping place channel opened) m →
      ∃ next changed, At (s.stop s.threadId channel opened place) next changed ∧ Ends ι next changed after) :
    Ends ι (.stopping place channel opened) m after := by
  apply Ends.advance true
  intro s at_
  obtain ⟨next, changed, there, ends⟩ := moves s at_
  exact ⟨_, next, changed, by rw [step, at_.place], there, ends⟩

theorem stop_submit : Ends ι (.stopping .submit channel opened) m (m.setReading channel false) := by
  apply Ends.stop
  intro s at_
  refine ⟨.outside, _, ?_, Ends.outside _⟩
  rw [State.stop, runInLoop_own]
  exact (at_.goto .outside).setReading channel opened false

theorem stop_store :
    Ends ι (.stopping .store channel opened) m ({ m with state := .bound }.setReading channel false) := by
  apply Ends.stop
  intro s at_
  obtain ⟨alive, _, members⟩ := at_
  cases members
  exact ⟨_, _, ⟨alive, Function.update_self _ _ _, rfl⟩, stop_submit⟩

theorem stop_check : Ends ι (.stopping .check channel opened) m
    ({ m with state := if m.state = SocketState.receiving then .bound else m.state }.setReading channel false) := by
  apply Ends.stop
  intro s at_
  have state : s.state = m.state := congrArg Members.state at_.members
  refine ⟨_, m, at_.goto _, ?_⟩
  rw [state]
  split
  · exact stop_store
  · exact stop_submit

theorem start_submit : Ends ι (.starting .submit channel opened) m (m.setReading channel true) := by
  apply Ends.start
  intro s at_
  refine ⟨.outside, _, ?_, Ends.outside _⟩
  rw [State.start, runInLoop_own]
  exact (at_.goto .outside).setReading channel opened true

theorem start_store :
    Ends ι (.starting .store channel opened) m ({ m with state := .receiving }.setReading channel true) := by
  apply Ends.start
  intro s at_
  obtain ⟨alive, _, members⟩ := at_
  cases members
  exact ⟨_, _, ⟨alive, Function.update_self _ _ _, rfl⟩, start_submit⟩

theorem start_check : Ends ι (.starting .check channel opened) m
    (if m.state = .receiving then m else { m with state := .receiving }.setReading channel true) := by
  apply Ends.start
  intro s at_
  have state : s.state = m.state := congrArg Members.state at_.members
  refine ⟨_, m, at_.goto _, ?_⟩
  rw [state]
  split
  · exact Ends.outside m
  · exact start_store

/-- `isBound()` is what its one or two loads find. -/
theorem start_loadBound : Ends ι (.starting .loadBound channel opened) m
    (if m.state = .bound then { m with state := .receiving }.setReading channel true else m) := by
  apply Ends.start
  intro s at_
  have state : s.state = m.state := congrArg Members.state at_.members
  refine ⟨_, m, at_.goto _, ?_⟩
  rw [state]
  by_cases bound : m.state = .bound
  · have other : m.state ≠ .receiving := by
      rw [bound]
      intro same
      cases same
    rw [if_pos bound, if_pos bound]
    have checked : Ends ι (.starting .check channel opened) m _ := start_check
    rw [if_neg other] at checked
    exact checked
  · rw [if_neg bound, if_neg bound]
    apply Ends.start
    intro s at_
    have state : s.state = m.state := congrArg Members.state at_.members
    refine ⟨_, m, at_.goto _, ?_⟩
    rw [state]
    by_cases receiving : m.state = .receiving
    · rw [if_pos receiving]
      have checked : Ends ι (.starting .check channel opened) m _ := start_check
      rw [if_pos receiving] at checked
      exact checked
    · rw [if_neg receiving]
      exact Ends.outside m

/-! ### `bind` -/

variable {family : Family} {createdSocket : Bool} {channelLocal sockfdLocal : Option Nat}

theorem Ends.bind {place : Binding} (succeeds : Bool)
    (moves : ∀ s : State ι, At s (.binding place family createdSocket channelLocal sockfdLocal) m →
      ∃ next changed, At (s.advanceBind s.threadId succeeds family createdSocket channelLocal sockfdLocal place)
        next changed ∧ Ends ι next changed after) :
    Ends ι (.binding place family createdSocket channelLocal sockfdLocal) m after := by
  apply Ends.advance succeeds
  intro s at_
  obtain ⟨next, changed, there, ends⟩ := moves s at_
  exact ⟨_, next, changed, by rw [step, at_.place], there, ends⟩

/-- `::bind` has succeeded. -/
theorem bind_check : Ends ι (.binding .check family createdSocket channelLocal sockfdLocal) m
    (if m.state = .receiving then m else { m with state := .bound }) := by
  apply Ends.bind true
  intro s at_
  have state : s.state = m.state := congrArg Members.state at_.members
  refine ⟨_, m, at_.goto _, ?_⟩
  rw [state]
  split
  · exact Ends.outside m
  · apply Ends.bind true
    intro s at_
    exact ⟨_, _, at_.store (fun m => { m with state := .bound }) rfl (Function.update_self _ _ _) rfl, Ends.outside _⟩

def Members.closed (m : Members) : Members :=
  { m with channel := none, family := AF_UNSPEC, opened := false, state := .closed }

/-- `::bind` has failed on a socket that was made for it. -/
theorem bind_moveChannel {number : Nat} (present : m.channel = some number) (opened : m.opened = true) :
    Ends ι (.binding .moveChannel family createdSocket channelLocal sockfdLocal) m
      (m.closed.setEvents number kNoneEvent) := by
  apply Ends.bind true
  intro s at_
  have member : s.channel = some number := (congrArg Members.channel at_.members).trans present
  refine ⟨_, _, at_.store (fun m => { m with channel := none }) rfl (Function.update_self _ _ _) rfl, ?_⟩
  rw [member]
  apply Ends.bind true
  intro s at_
  have some : s.sockfd.isSome = true := (congrArg Members.opened at_.members).trans opened
  obtain ⟨sockfd, held⟩ := Option.isSome_iff_exists.mp some
  refine ⟨_, _, at_.goto _, ?_⟩
  rw [held]
  apply Ends.bind true
  intro s at_
  refine ⟨_, _, at_.store (fun m => { m with family := AF_UNSPEC }) rfl (Function.update_self _ _ _) rfl, ?_⟩
  apply Ends.bind true
  intro s at_
  refine ⟨_, _, at_.store (fun m => { m with opened := false }) rfl (Function.update_self _ _ _) rfl, ?_⟩
  apply Ends.bind true
  intro s at_
  refine ⟨_, _, at_.store (fun m => { m with state := .closed }) rfl (Function.update_self _ _ _) rfl, ?_⟩
  apply Ends.bind true
  intro s at_
  refine ⟨.outside, _, ?_, Ends.outside _⟩
  rw [State.advanceBind, runInLoop_own]
  exact (at_.goto .outside).cleanup number sockfd

def Members.made (m : Members) (family : UInt16) : Members :=
  { m with opened := true, family := family, state := .opened, channel := some m.numChannels,
           numChannels := m.numChannels + 1 }

/-- What `bind` does once there is a socket. -/
def Members.bindOpened (m : Members) (createdSocket bound : Bool) : Members :=
  if bound then if m.state = .receiving then m else { m with state := .bound }
  else if createdSocket then
    match m.channel with
    | some channel => m.closed.setEvents channel kNoneEvent
    | none => m.closed
  else m

theorem bind_bind (opened : m.opened = true) (present : m.channel.isSome = true) (bound : Bool) :
    Ends ι (.binding .bind family createdSocket channelLocal sockfdLocal) m (m.bindOpened createdSocket bound) := by
  obtain ⟨number, present⟩ := Option.isSome_iff_exists.mp present
  apply Ends.bind bound
  intro s at_
  have some : s.sockfd.isSome = true := (congrArg Members.opened at_.members).trans opened
  refine ⟨_, m, at_.goto _, ?_⟩
  rw [some, Members.bindOpened]
  cases bound with
  | true =>
    simp only [and_self, ↓reduceIte]
    exact bind_check
  | false =>
    simp only [Bool.false_eq_true, false_and, ↓reduceIte, present]
    split
    · exact bind_moveChannel present opened
    · exact Ends.outside m

/-- `::socket` succeeds. -/
theorem bind_create (bound : Bool) : Ends ι (.binding .create family createdSocket none none) m
    ((m.made family.number).bindOpened createdSocket bound) := by
  apply Ends.bind true
  intro s at_
  refine ⟨_, _, at_.store (fun m => { m with opened := true }) rfl (Function.update_self _ _ _) rfl, ?_⟩
  apply Ends.bind true
  intro s at_
  have some : s.sockfd.isNone = false := by
    have opened : s.sockfd.isSome = true := congrArg Members.opened at_.members
    rw [← Option.not_isSome, opened]
    rfl
  refine ⟨_, _, at_.goto _, ?_⟩
  rw [some]
  apply Ends.bind true
  intro s at_
  refine ⟨_, _, at_.store (fun m => { m with family := family.number }) rfl (Function.update_self _ _ _) rfl, ?_⟩
  apply Ends.bind true
  intro s at_
  refine ⟨_, _, at_.store (fun m => { m with state := .opened }) rfl (Function.update_self _ _ _) rfl, ?_⟩
  apply Ends.bind true
  intro s at_
  have numbers : s.numChannels = m.numChannels := congrArg Members.numChannels at_.members
  refine ⟨_, _, at_.store (fun m => { m with numChannels := m.numChannels + 1 }) rfl (Function.update_self _ _ _) rfl, ?_⟩
  rw [numbers]
  apply Ends.bind true
  intro s at_
  refine ⟨_, _, at_.store (fun before => { before with channel := .some m.numChannels }) rfl (Function.update_self _ _ _) rfl, ?_⟩
  exact bind_bind rfl rfl bound

/-- `::socket` fails. -/
theorem bind_refused (closed : m.opened = false) : Ends ι (.binding .create family createdSocket none none) m m := by
  apply Ends.bind false
  intro s at_
  refine ⟨_, _, at_.store (fun m => { m with opened := false }) rfl (Function.update_self _ _ _) rfl, ?_⟩
  have same : { m with opened := false } = m := by rw [← closed]
  rw [same]
  apply Ends.bind true
  intro s at_
  have none : s.sockfd.isNone = true := by
    have opened : s.sockfd.isSome = false := (congrArg Members.opened at_.members).trans closed
    rw [← Option.not_isSome, opened]
    rfl
  refine ⟨_, _, at_.goto _, ?_⟩
  rw [none]
  exact Ends.outside m

/-! ### Whole calls -/

variable {u : UdpSocket}

theorem Ends.call {first : Action ι} {t : State ι} (taken : step s first = some t) (there : At t place m)
    (ends : Ends ι place m after) : ∃ last, Reaches step Any s last ∧ At last .outside after := by
  obtain ⟨last, run, left⟩ := ends t there
  exact ⟨last, ((Reaches.refl s).next trivial taken).trans run, left⟩

theorem stopReceive_shared (at_ : At s .outside u.members) :
    ∃ t, Reaches step Any s t ∧ At t .outside u.stopReceive.members := by
  have member : s.channel = u.channel := congrArg Members.channel at_.members
  cases present : u.channel with
  | none =>
    rw [UdpSocket.stopReceive, present]
    exact ⟨s, .refl s, at_⟩
  | some channel =>
    have taken : step s (.stopReceive s.threadId) =
        some (s.goto s.threadId (.stopping .check channel !(s.isClosed channel))) := by
      rw [step, if_pos ⟨at_.alive, at_.place⟩, member, present]
    have left : u.stopReceive.members =
        { u.members with
          state := if u.members.state = SocketState.receiving then .bound else u.members.state }.setReading channel
            false := by
      simp only [UdpSocket.stopReceive, present, UdpSocket.members, interest_update, Channel.disableReading,
        Channel.update_events, Members.setReading, Members.setEvents]
    rw [left]
    exact Ends.call taken (at_.goto _) stop_check

theorem startReceive_shared (at_ : At s .outside u.members) :
    ∃ t, Reaches step Any s t ∧ At t .outside u.startReceive.1.members := by
  have member : s.channel = u.channel := congrArg Members.channel at_.members
  cases present : u.channel with
  | none =>
    rw [UdpSocket.startReceive, present]
    exact ⟨s, .refl s, at_⟩
  | some channel =>
    have taken : step s (.startReceive s.threadId) =
        some (s.goto s.threadId (.starting .loadBound channel !(s.isClosed channel))) := by
      rw [step, if_pos ⟨at_.alive, at_.place⟩, member, present]
    have left : u.startReceive.1.members =
        if u.members.state = .bound then { u.members with state := .receiving }.setReading channel true
        else u.members := by
      have state : u.members.state = u.state := rfl
      rw [UdpSocket.startReceive, present, state, UdpSocket.isBound]
      cases now : u.state with
      | bound =>
        simp only [decide_true, Bool.true_or, Bool.not_true, Bool.false_eq_true, reduceCtorEq, ↓reduceIte,
          UdpSocket.members, interest_update, Channel.enableReading, Channel.update_events, Members.setReading,
          Members.setEvents, present]
      | closed => rfl
      | opened => rfl
      | receiving => rfl
    rw [left]
    exact Ends.call taken (at_.goto _) start_loadBound

theorem bindOpened_members {opened : UdpSocket} (inv : opened.Inv) (sockfd : 0 ≤ opened.sockfd)
    (createdSocket bound : Bool) :
    (opened.bindOpened createdSocket bound).1.members = opened.members.bindOpened createdSocket bound := by
  obtain ⟨number, present⟩ := Option.ne_none_iff_exists'.mp (inv.opened sockfd).2.1
  have state : opened.members.state = opened.state := rfl
  have channel : opened.members.channel = some number := present
  unfold UdpSocket.bindOpened Members.bindOpened
  cases bound with
  | true =>
    simp only [↓reduceIte, state]
    split <;> rfl
  | false =>
    simp only [Bool.false_eq_true, ↓reduceIte, channel]
    cases createdSocket with
    | false => rfl
    | true =>
      simp only [↓reduceIte, UdpSocket.cleanup, present, if_pos sockfd, UdpSocket.members, interest_update,
        Channel.remove_events, Channel.disableAll_events, Members.closed, Members.setEvents]
      rfl

theorem bind_shared (at_ : At s .outside u.members) (inv : u.Inv) {socket : Option Nat}
    (grants : u.Grants family.number socket) (bound : Bool) :
    ∃ t, Reaches step Any s t ∧ At t .outside (u.bind family.number socket bound).1.members := by
  have taken : step s (.bind s.threadId family) =
      some (s.goto s.threadId (.binding .sockfd family false none none)) := by
    rw [step, if_pos ⟨at_.alive, at_.place⟩]
  apply Ends.call taken (at_.goto _)
  apply Ends.bind true
  intro s at_
  have opened : s.sockfd.isSome = decide (0 ≤ u.sockfd) := congrArg Members.opened at_.members
  refine ⟨_, _, at_.goto _, ?_⟩
  rw [← Option.not_isSome, opened]
  apply Ends.bind true
  intro s at_
  have opened : s.sockfd.isSome = decide (0 ≤ u.sockfd) := congrArg Members.opened at_.members
  refine ⟨_, _, at_.goto _, ?_⟩
  rw [opened]
  by_cases present : 0 ≤ u.sockfd
  · -- the socket is there, if its family is the right one
    have older : ¬ u.sockfd < 0 := by omega
    rw [decide_eq_true present]
    apply Ends.bind true
    intro s at_
    have known : s.family.number = u.family := congrArg Members.family at_.members
    refine ⟨_, _, at_.goto _, ?_⟩
    by_cases same : s.family = family
    · have ensured : u.ensureSocket family.number socket = (u, true) := by
        unfold UdpSocket.ensureSocket
        rw [if_pos present, ← known, same, decide_eq_true rfl]
      rw [if_pos same, UdpSocket.bind, ensured, decide_eq_false older]
      show Ends ι _ _ (u.bindOpened false bound).1.members
      rw [bindOpened_members inv present]
      exact bind_bind (decide_eq_true present) (Option.isSome_iff_ne_none.mpr (inv.opened present).2.1) bound
    · have ensured : u.ensureSocket family.number socket = (u, false) := by
        unfold UdpSocket.ensureSocket
        rw [if_pos present, ← known, decide_eq_false (mt Family.number_inj.mp same)]
      rw [if_neg same, UdpSocket.bind, ensured]
      exact Ends.outside _
  · have negative : u.sockfd < 0 := by omega
    rw [decide_eq_false present]
    cases socket with
    | none =>
      have ensured : u.ensureSocket family.number none = (u, false) := by
        unfold UdpSocket.ensureSocket
        rw [if_neg present]
        show (({ u with sockfd := -1 } : UdpSocket), false) = (u, false)
        rw [← inv.negative negative]
      rw [UdpSocket.bind, ensured]
      exact bind_refused (decide_eq_false present)
    | some sockfd =>
      have ensured : u.ensureSocket family.number (some sockfd) = (u.made family.number sockfd, true) := by
        unfold UdpSocket.ensureSocket
        rw [if_neg present]
        rfl
      have made : (u.made family.number sockfd).Inv := UdpSocket.Inv.made (grants sockfd rfl).1
      have nonnegative : 0 ≤ (u.made family.number sockfd).sockfd := Int.natCast_nonneg sockfd
      have members : (u.made family.number sockfd).members = u.members.made family.number := by
        simp only [UdpSocket.members, Members.made, decide_eq_true nonnegative]
        rfl
      rw [UdpSocket.bind, ensured, decide_eq_true negative]
      show Ends ι _ _ ((u.made family.number sockfd).bindOpened true bound).1.members
      rw [bindOpened_members made nonnegative, members]
      exact bind_create bound

/-- The calls that the shared system has. -/
def Op.Shared : Op → Prop
  | .bind family _ _ => ∃ known : Family, known.number = family
  | .startReceive => True
  | .stopReceive => True
  | .open_ _ _ => False
  | .bindAndStart _ _ _ => False
  | .sendTo _ _ _ => False

/-- What the loop thread does to the socket by whole calls is what its accesses do, one after another, in the
    system that other threads share, as long as those take no step. -/
theorem calls_shared (threadId : ι) {kernel : Nat → Option Bool}
    (run : Reaches UdpSocket.step (fun u op => u.Possible op ∧ op.Shared) (UdpSocket.create kernel) u) :
    ∃ t, Reaches step Any (State.initial threadId) t ∧ At t .outside u.members := by
  have held : u.Inv ∧ ∃ t, Reaches step Any (State.initial threadId) t ∧ At t .outside u.members := by
    apply run.keeps
    · exact ⟨UdpSocket.Inv.create kernel, State.initial threadId, .refl _, rfl, rfl, rfl⟩
    · intro before op after held admitted taken
      obtain ⟨inv, s, reached, at_⟩ := held
      cases taken
      refine ⟨(inv.apply op admitted.1).1, ?_⟩
      have goes : ∃ t, Reaches step Any s t ∧ At t .outside (op.apply before).1.members := by
        cases op with
        | bind family socket bound =>
          obtain ⟨known, same⟩ := admitted.2
          subst same
          exact bind_shared at_ inv admitted.1 bound
        | startReceive => exact startReceive_shared at_
        | stopReceive => exact stopReceive_shared at_
        | open_ family socket => exact admitted.2.elim
        | bindAndStart family socket bound => exact admitted.2.elim
        | sendTo family socket sent => exact admitted.2.elim
      obtain ⟨t, moved, there⟩ := goes
      exact ⟨t, reached.trans moved, there⟩
  exact held.2

end Sequential

end Hvnetpp.Udp
