import Mathlib.Data.Finset.Card
import Hvnetpp.Machine.Runs
import Hvnetpp.Server.Acceptor

namespace Hvnetpp.Server

namespace Descriptors

def Live (d : Descriptors) (fd : Nat) : Prop := fd < d.obtained ∧ d.closings fd = 0

instance Live.decidable (d : Descriptors) (fd : Nat) : Decidable (d.Live fd) :=
  inferInstanceAs (Decidable (fd < d.obtained ∧ d.closings fd = 0))

/-- The entries of the descriptor table that are in use. -/
def inUse (d : Descriptors) : Nat := ((Finset.range d.obtained).filter fun fd => d.closings fd = 0).card

/-- Nothing is closed before it is obtained. -/
def Fresh (d : Descriptors) : Prop := ∀ fd, d.obtained ≤ fd → d.closings fd = 0

variable {d : Descriptors} {fd other : Nat}

theorem Fresh.acquire (fresh : d.Fresh) : d.acquire.Fresh := fun fd new => fresh fd (Nat.le_of_succ_le new)

theorem Fresh.close (fresh : d.Fresh) (live : d.Live fd) : (d.close fd).Fresh := by
  intro other new
  have differs : other ≠ fd := by
    have inside := live.1
    have outside : d.obtained ≤ other := new
    omega
  exact (Function.update_of_ne differs ..).trans (fresh other new)

theorem Fresh.inUse_acquire (fresh : d.Fresh) : d.acquire.inUse = d.inUse + 1 := by
  unfold inUse Descriptors.acquire
  rw [Finset.range_add_one, Finset.filter_insert, if_pos (fresh _ (Nat.le_refl _)), Finset.card_insert_of_notMem]
  simp

theorem Fresh.live_acquire (fresh : d.Fresh) : d.acquire.Live d.obtained :=
  ⟨Nat.lt_succ_self _, fresh _ (Nat.le_refl _)⟩

theorem Live.acquire (live : d.Live fd) : d.acquire.Live fd := ⟨Nat.lt_succ_of_lt live.1, live.2⟩

theorem Live.close (live : d.Live fd) (differs : fd ≠ other) : (d.close other).Live fd :=
  ⟨live.1, (Function.update_of_ne differs ..).trans live.2⟩

theorem Live.inUse_close (live : d.Live fd) : (d.close fd).inUse + 1 = d.inUse := by
  have member : fd ∈ (Finset.range d.obtained).filter fun fd => d.closings fd = 0 := by
    rw [Finset.mem_filter, Finset.mem_range]
    exact live
  have without : ((Finset.range d.obtained).filter fun other => (d.close fd).closings other = 0) =
      ((Finset.range d.obtained).filter fun fd => d.closings fd = 0).erase fd := by
    ext other
    rw [Finset.mem_erase, Finset.mem_filter, Finset.mem_filter]
    by_cases same : other = fd
    · simp [Descriptors.close, same]
    · simp [Descriptors.close, same]
  rw [inUse, inUse, ← Finset.card_erase_add_one member, ← without]
  rfl

/-- A descriptor that is closed right after it was obtained. -/
theorem Fresh.inUse_discard (fresh : d.Fresh) : (d.acquire.close d.obtained).inUse = d.inUse := by
  have closed := fresh.live_acquire.inUse_close
  have opened := fresh.inUse_acquire
  omega

end Descriptors

end Hvnetpp.Server

namespace Hvnetpp.Backlog

open Machine Server

/-- `errno` after `accept`; `EWOULDBLOCK` is the same as `EAGAIN`. -/
inductive AcceptError where
  | eagain
  | econnaborted
  | eintr
  | eproto
  | eperm
  | emfile
  | ebadf
  | efault
  | einval
  | enfile
  | enobufs
  | enomem
  | enotsock
  | eopnotsupp
  | unknown (errno : Nat)
  deriving DecidableEq, Repr

/-- `sockets::accept` returns with these and aborts with any other. -/
def AcceptError.returned : AcceptError → Bool
  | .eagain | .econnaborted | .eintr | .eproto | .eperm | .emfile => true
  | .ebadf | .efault | .einval | .enfile | .enobufs | .enomem | .enotsock | .eopnotsupp | .unknown _ => false

/-- Neither the end of the backlog nor that of the descriptors. -/
def AcceptError.interrupts : AcceptError → Bool
  | .eagain | .emfile => false
  | _ => true

/-- The next system call of `Acceptor::handleRead`. -/
inductive Place where
  | outside
  | accepting
  | exhausted
  | freed
  | shedding
  | reopening
  | aborted
  deriving DecidableEq, Repr

/-- What becomes of a client that `accept` takes from the backlog: its descriptor goes to a connection, is closed
    because there is no server or callback, or is closed to make room. -/
inductive Fate where
  | kept
  | closed
  | shed
  deriving DecidableEq, Repr

/-- `waiting` is the backlog of the listening socket. History: the clients that came, those that left the backlog
    through `accept` or because they gave up, the calls of `handleRead`, and the times that `accept` failed for
    another reason than an empty backlog or a full table. -/
structure State where
  acceptor : Acceptor
  descriptors : Descriptors
  waiting : List Nat
  place : Place
  arrived : List Nat
  taken : List (Nat × Fate)
  reset : List Nat
  rounds : Nat
  interrupted : Nat

/-- An acceptor that has its idle descriptor and listens. -/
def State.initial : State :=
  let (acceptor, descriptors) := Acceptor.create .none true
  let (_, acceptor, descriptors) := acceptor.listen descriptors .listens
  { acceptor := acceptor, descriptors := descriptors, waiting := [], place := .outside, arrived := [], taken := [],
    reset := [], rounds := 0, interrupted := 0 }

/-- `openElsewhere` and `closeElsewhere` are the rest of the process: other threads at any time, callbacks on the
    loop thread. -/
inductive Event where
  | arrive (client : Nat)
  | reset (client : Nat)
  | openElsewhere
  | closeElsewhere (fd : Nat)
  | poll
  | accept (client : Nat) (kept : Bool)
  | acceptFails (errno : AcceptError)
  | closeIdle
  | acceptAgain (client : Nat)
  | acceptAgainFails (errno : AcceptError)
  | closeTaken
  | reopen (opened : Bool)
  deriving DecidableEq, Repr

/-- The table of descriptors has `limit` entries. -/
def State.full (limit : Nat) (s : State) : Bool := decide (limit ≤ s.descriptors.inUse)

/-- `accept` fails with `EMFILE` if the table is full, and with `EAGAIN` if the backlog is empty. -/
def State.mayFail (limit : Nat) (s : State) : AcceptError → Bool
  | .emfile => s.full limit
  | .eagain => s.waiting.isEmpty
  | _ => true

/-- Where `handleRead` goes on after a failure. -/
def AcceptError.next (errno : AcceptError) : Place :=
  if errno.returned then if errno = .emfile then .exhausted else .outside else .aborted

def step (limit : Nat) (s : State) : Event → Option State
  | .arrive client => some { s with waiting := s.waiting ++ [client], arrived := s.arrived ++ [client] }
  | .reset client =>
    if client ∈ s.waiting then
      some { s with waiting := s.waiting.erase client, reset := s.reset ++ [client] }
    else none
  | .openElsewhere =>
    if s.full limit = false then some { s with descriptors := s.descriptors.acquire } else none
  | .closeElsewhere fd =>
    if s.descriptors.Live fd ∧ s.acceptor.acceptSocket ≠ some fd ∧ s.acceptor.idleFd ≠ some fd then
      some { s with descriptors := s.descriptors.close fd }
    else none
  | .poll =>
    if s.place = .outside ∧ s.waiting ≠ [] then some { s with place := .accepting, rounds := s.rounds + 1 } else none
  | .accept client kept =>
    if s.place = .accepting ∧ s.waiting.head? = some client ∧ s.full limit = false then
      some { s with
        descriptors := if kept then s.descriptors.acquire else s.descriptors.acquire.close s.descriptors.obtained
        waiting := s.waiting.tail
        taken := s.taken ++ [(client, if kept then .kept else .closed)] }
    else none
  | .acceptFails errno =>
    if s.place = .accepting ∧ s.mayFail limit errno = true then
      some { s with
        place := errno.next
        interrupted := if errno.interrupts then s.interrupted + 1 else s.interrupted }
    else none
  | .closeIdle =>
    if s.place = .exhausted then
      some { s with place := .freed, descriptors := s.descriptors.closeOpen s.acceptor.idleFd }
    else none
  | .acceptAgain client =>
    if s.place = .freed ∧ s.waiting.head? = some client ∧ s.full limit = false then
      some { s with
        place := .shedding
        acceptor := { s.acceptor with idleFd := some s.descriptors.obtained }
        descriptors := s.descriptors.acquire
        waiting := s.waiting.tail
        taken := s.taken ++ [(client, .shed)] }
    else none
  | .acceptAgainFails errno =>
    if s.place = .freed ∧ s.mayFail limit errno = true then
      some { s with
        place := .reopening
        acceptor := { s.acceptor with idleFd := none }
        interrupted := if errno.interrupts then s.interrupted + 1 else s.interrupted }
    else none
  | .closeTaken =>
    if s.place = .shedding then
      some { s with place := .reopening, descriptors := s.descriptors.closeOpen s.acceptor.idleFd }
    else none
  | .reopen opened =>
    -- `open` fails for want of a descriptor only
    if s.place = .reopening ∧ opened = !s.full limit then
      some { s with
        place := .outside
        acceptor := (s.acceptor.openIdleFd s.descriptors opened).1
        descriptors := (s.acceptor.openIdleFd s.descriptors opened).2 }
    else none

/-- No other thread opens a descriptor while the idle one is given up. -/
def Undisturbed (s : State) : Event → Prop
  | .openElsewhere => s.place ≠ .freed ∧ s.place ≠ .reopening
  | _ => True

/-- No other thread closes a descriptor between the `EMFILE` and the end of `handleRead`. -/
def Calm (s : State) : Event → Prop
  | .closeElsewhere _ => s.place = .outside ∨ s.place = .accepting
  | _ => True

instance Undisturbed.decidable (s : State) : (event : Event) → Decidable (Undisturbed s event)
  | .openElsewhere => inferInstanceAs (Decidable (s.place ≠ .freed ∧ s.place ≠ .reopening))
  | .arrive _ | .reset _ | .closeElsewhere _ | .poll | .accept _ _ | .acceptFails _ | .closeIdle | .acceptAgain _
  | .acceptAgainFails _ | .closeTaken | .reopen _ => isTrue trivial

instance Calm.decidable (s : State) : (event : Event) → Decidable (Calm s event)
  | .closeElsewhere _ => inferInstanceAs (Decidable (s.place = .outside ∨ s.place = .accepting))
  | .arrive _ | .reset _ | .openElsewhere | .poll | .accept _ _ | .acceptFails _ | .closeIdle | .acceptAgain _
  | .acceptAgainFails _ | .closeTaken | .reopen _ => isTrue trivial

variable {limit : Nat} {s t : State}

/-- Run to its end without another thread, the branch for `EMFILE` does what `Acceptor.shed` does. -/
theorem branch_sheds {client : Nat} {opened : Bool}
    (ran : exec (step limit) s [.closeIdle, .acceptAgain client, .closeTaken, .reopen opened] = some t) :
    (t.acceptor, t.descriptors) = s.acceptor.shed s.descriptors true opened := by
  simp only [exec_cons, exec_nil, step, Option.bind_eq_some_iff, Option.ite_none_right_eq_some, Option.some.injEq] at ran
  obtain ⟨_, ⟨_, rfl⟩, _, ⟨_, rfl⟩, _, ⟨_, rfl⟩, _, ⟨_, rfl⟩, rfl⟩ := ran
  rfl

theorem branch_sheds_nobody {errno : AcceptError} {opened : Bool}
    (ran : exec (step limit) s [.closeIdle, .acceptAgainFails errno, .reopen opened] = some t) :
    (t.acceptor, t.descriptors) = s.acceptor.shed s.descriptors false opened := by
  simp only [exec_cons, exec_nil, step, Option.bind_eq_some_iff, Option.ite_none_right_eq_some, Option.some.injEq] at ran
  obtain ⟨_, ⟨_, rfl⟩, _, ⟨_, rfl⟩, _, ⟨_, rfl⟩, rfl⟩ := ran
  rfl

/-- The idle descriptor, or the entry of the table that it has left. -/
def Spare (limit : Nat) (s : State) : Place → Prop
  | .outside | .accepting | .exhausted | .shedding => ∃ fd, s.acceptor.idleFd = some fd ∧ s.descriptors.Live fd
  | .freed | .reopening => s.descriptors.inUse < limit
  | .aborted => True

structure Spared (limit : Nat) (s : State) : Prop where
  fresh : s.descriptors.Fresh
  bounded : s.descriptors.inUse ≤ limit
  spare : Spare limit s s.place

theorem Spared.initial (room : 2 ≤ limit) : Spared limit State.initial := by
  refine ⟨fun _ _ => rfl, ?_, 0, rfl, by decide⟩
  have two : State.initial.descriptors.inUse = 2 := by decide
  rw [two]
  exact room

theorem Spared.openElsewhere (spared : Spared limit s) (room : s.full limit = false)
    (undisturbed : s.place ≠ .freed ∧ s.place ≠ .reopening) :
    Spared limit { s with descriptors := s.descriptors.acquire } := by
  have more := spared.fresh.inUse_acquire
  have less : ¬ limit ≤ s.descriptors.inUse := of_decide_eq_false room
  refine ⟨spared.fresh.acquire, by dsimp only; omega, ?_⟩
  have spare := spared.spare
  cases place : s.place <;> rw [place] at spare
  case freed => exact absurd place undisturbed.1
  case reopening => exact absurd place undisturbed.2
  case aborted => trivial
  all_goals
    obtain ⟨fd, idle, live⟩ := spare
    exact ⟨fd, idle, live.acquire⟩

theorem Spared.closeElsewhere (spared : Spared limit s) {fd : Nat} (live : s.descriptors.Live fd)
    (other : s.acceptor.idleFd ≠ some fd) : Spared limit { s with descriptors := s.descriptors.close fd } := by
  have fewer := live.inUse_close
  have bounded := spared.bounded
  refine ⟨spared.fresh.close live, by dsimp only; omega, ?_⟩
  have spare := spared.spare
  cases place : s.place <;> rw [place] at spare
  case freed => show (s.descriptors.close fd).inUse < limit; omega
  case reopening => show (s.descriptors.close fd).inUse < limit; omega
  case aborted => trivial
  all_goals
    obtain ⟨idle, held, open_⟩ := spare
    refine ⟨idle, held, open_.close ?_⟩
    intro same
    exact other (same ▸ held)

/-- The descriptor that the acceptor gives up leaves an entry free. -/
theorem Spared.closeOpen (spared : Spared limit s) {place : Place} {fd : Nat} (idle : s.acceptor.idleFd = some fd)
    (live : s.descriptors.Live fd) (waits : place = .freed ∨ place = .reopening) :
    Spared limit { s with place := place, descriptors := s.descriptors.closeOpen s.acceptor.idleFd } := by
  have fewer := live.inUse_close
  have bounded := spared.bounded
  rw [idle]
  refine ⟨spared.fresh.close live, ?_, ?_⟩
  · show (s.descriptors.close fd).inUse ≤ limit
    omega
  · have free : (s.descriptors.close fd).inUse < limit := by omega
    rcases waits with rfl | rfl <;> exact free

theorem Spared.step (spared : Spared limit s) {event : Event} (undisturbed : Undisturbed s event)
    (taken : Backlog.step limit s event = some t) : Spared limit t := by
  have spare := spared.spare
  cases event <;> simp only [Backlog.step, Option.ite_none_right_eq_some, Option.some.injEq] at taken
  case arrive client =>
    subst taken
    exact ⟨spared.fresh, spared.bounded, by cases place : s.place <;> rw [place] at spare <;> exact spare⟩
  case reset client =>
    obtain ⟨_, rfl⟩ := taken
    exact ⟨spared.fresh, spared.bounded, by cases place : s.place <;> rw [place] at spare <;> exact spare⟩
  case openElsewhere =>
    obtain ⟨room, rfl⟩ := taken
    exact spared.openElsewhere room undisturbed
  case closeElsewhere fd =>
    obtain ⟨⟨live, _, other⟩, rfl⟩ := taken
    exact spared.closeElsewhere live other
  case poll =>
    obtain ⟨⟨place, _⟩, rfl⟩ := taken
    rw [place] at spare
    exact ⟨spared.fresh, spared.bounded, spare⟩
  case accept client kept =>
    obtain ⟨⟨place, _, room⟩, rfl⟩ := taken
    rw [place] at spare
    obtain ⟨fd, idle, live⟩ := spare
    have less : ¬ limit ≤ s.descriptors.inUse := of_decide_eq_false room
    have differs : fd ≠ s.descriptors.obtained := Nat.ne_of_lt live.1
    cases kept with
    | true =>
      have more := spared.fresh.inUse_acquire
      have bounded : s.descriptors.acquire.inUse ≤ limit := by omega
      refine ⟨spared.fresh.acquire, bounded, ?_⟩
      simp only [place]
      exact ⟨fd, idle, live.acquire⟩
    | false =>
      refine ⟨spared.fresh.acquire.close spared.fresh.live_acquire, ?_, ?_⟩
      · exact spared.fresh.inUse_discard.trans_le spared.bounded
      · simp only [place]
        exact ⟨fd, idle, live.acquire.close differs⟩
  case acceptFails errno =>
    obtain ⟨⟨place, _⟩, rfl⟩ := taken
    rw [place] at spare
    refine ⟨spared.fresh, spared.bounded, ?_⟩
    cases errno <;> first | exact spare | trivial
  case closeIdle =>
    obtain ⟨place, rfl⟩ := taken
    rw [place] at spare
    obtain ⟨fd, idle, live⟩ := spare
    exact spared.closeOpen idle live (.inl rfl)
  case acceptAgain client =>
    obtain ⟨⟨_, _, room⟩, rfl⟩ := taken
    have more := spared.fresh.inUse_acquire
    have less : ¬ limit ≤ s.descriptors.inUse := of_decide_eq_false room
    exact ⟨spared.fresh.acquire, by dsimp only; omega, _, rfl, spared.fresh.live_acquire⟩
  case acceptAgainFails errno =>
    obtain ⟨⟨place, _⟩, rfl⟩ := taken
    rw [place] at spare
    exact ⟨spared.fresh, spared.bounded, spare⟩
  case closeTaken =>
    obtain ⟨place, rfl⟩ := taken
    rw [place] at spare
    obtain ⟨fd, idle, live⟩ := spare
    exact spared.closeOpen idle live (.inr rfl)
  case reopen opened =>
    obtain ⟨⟨place, result⟩, rfl⟩ := taken
    rw [place] at spare
    have free : s.descriptors.inUse < limit := spare
    have room : s.full limit = false := decide_eq_false (Nat.not_le.mpr free)
    rw [room] at result
    subst result
    have more := spared.fresh.inUse_acquire
    refine ⟨spared.fresh.acquire, ?_, _, rfl, spared.fresh.live_acquire⟩
    show s.descriptors.acquire.inUse ≤ limit
    omega

/-- The clients that have left the backlog, and the failures that cost a call of `handleRead`. -/
def State.gone (s : State) : Nat := s.taken.length + s.reset.length + s.interrupted

/-- A call that found somebody waiting does not return before somebody is gone. -/
def Paid (s : State) : Place → Prop
  | .accepting | .exhausted | .freed => s.rounds ≤ s.gone ∨ s.waiting ≠ [] ∧ s.rounds ≤ s.gone + 1
  | .outside | .shedding | .reopening | .aborted => s.rounds ≤ s.gone

theorem Paid.le {place : Place} (paid : Paid s place) : s.rounds ≤ s.gone + 1 := by
  cases place <;> simp only [Paid] at paid <;> omega

theorem Paid.of_le (covered : s.rounds ≤ s.gone) (place : Place) : Paid s place := by
  cases place
  case accepting => exact .inl covered
  case exhausted => exact .inl covered
  case freed => exact .inl covered
  all_goals exact covered

/-- With the backlog empty or another failure the call may return. -/
theorem Paid.fails {errno : AcceptError} (paid : s.rounds ≤ s.gone ∨ s.waiting ≠ [] ∧ s.rounds ≤ s.gone + 1)
    (may : s.mayFail limit errno = true) (other : errno ≠ .emfile) :
    s.rounds ≤ s.taken.length + s.reset.length + if errno.interrupts then s.interrupted + 1 else s.interrupted := by
  simp only [State.gone] at paid
  cases errno
  case emfile => exact absurd rfl other
  case eagain =>
    have none : s.waiting = [] := List.isEmpty_iff.mp may
    simp only [AcceptError.interrupts, none, ne_eq, not_true_eq_false, false_and, or_false] at paid ⊢
    exact paid
  all_goals
    simp only [AcceptError.interrupts, ↓reduceIte]
    omega

theorem Paid.step (spared : Spared limit s) (paid : Paid s s.place) {event : Event}
    (taken : Backlog.step limit s event = some t) : Paid t t.place := by
  have most := paid.le
  cases event <;> simp only [Backlog.step, Option.ite_none_right_eq_some, Option.some.injEq] at taken
  case arrive client =>
    subst taken
    cases place : s.place <;> rw [place] at paid
    case accepting => exact paid.imp_right fun waits => ⟨by simp, waits.2⟩
    case exhausted => exact paid.imp_right fun waits => ⟨by simp, waits.2⟩
    case freed => exact paid.imp_right fun waits => ⟨by simp, waits.2⟩
    all_goals exact paid
  case reset client =>
    obtain ⟨_, rfl⟩ := taken
    apply Paid.of_le
    simp only [State.gone, List.length_append, List.length_singleton] at most ⊢
    omega
  case openElsewhere =>
    obtain ⟨_, rfl⟩ := taken
    cases place : s.place <;> rw [place] at paid <;> exact paid
  case closeElsewhere fd =>
    obtain ⟨_, rfl⟩ := taken
    cases place : s.place <;> rw [place] at paid <;> exact paid
  case poll =>
    obtain ⟨⟨place, waits⟩, rfl⟩ := taken
    rw [place] at paid
    exact .inr ⟨waits, Nat.succ_le_succ paid⟩
  case accept client kept =>
    obtain ⟨_, rfl⟩ := taken
    apply Paid.of_le
    simp only [State.gone, List.length_append, List.length_singleton] at most ⊢
    omega
  case acceptFails errno =>
    obtain ⟨⟨place, may⟩, rfl⟩ := taken
    rw [place] at paid
    by_cases full : errno = .emfile
    · subst full
      exact paid
    · exact .of_le (Paid.fails paid may full) _
  case closeIdle =>
    obtain ⟨place, rfl⟩ := taken
    rw [place] at paid
    exact paid
  case acceptAgain client =>
    obtain ⟨_, rfl⟩ := taken
    apply Paid.of_le
    simp only [State.gone, List.length_append, List.length_singleton] at most ⊢
    omega
  case acceptAgainFails errno =>
    obtain ⟨⟨place, may⟩, rfl⟩ := taken
    have spare := spared.spare
    rw [place] at paid spare
    have free : s.descriptors.inUse < limit := spare
    apply Paid.of_le
    apply Paid.fails paid may
    rintro rfl
    have full : limit ≤ s.descriptors.inUse := of_decide_eq_true may
    omega
  case closeTaken =>
    obtain ⟨place, rfl⟩ := taken
    rw [place] at paid
    exact paid
  case reopen opened =>
    obtain ⟨⟨place, _⟩, rfl⟩ := taken
    rw [place] at paid
    exact paid

/-- Each client that came was taken, gave up or is waiting, and they are taken in their order. -/
structure Served (s : State) : Prop where
  ordered : (s.taken.map Prod.fst ++ s.waiting).Sublist s.arrived
  complete : s.arrived.Perm (s.taken.map Prod.fst ++ s.waiting ++ s.reset)

theorem take_head {client : Nat} {fate : Fate} (first : s.waiting.head? = some client) :
    (s.taken ++ [(client, fate)]).map Prod.fst ++ s.waiting.tail = s.taken.map Prod.fst ++ s.waiting := by
  obtain ⟨rest, waits⟩ := List.head?_eq_some_iff.mp first
  simp [waits]

theorem Served.reset (served : Served s) {client : Nat} (member : client ∈ s.waiting) :
    Served { s with waiting := s.waiting.erase client, reset := s.reset ++ [client] } where
  ordered := (List.Sublist.append_left List.erase_sublist _).trans served.ordered
  complete := by
    have taken : s.arrived.Perm (s.taken.map Prod.fst ++ client :: s.waiting.erase client ++ s.reset) :=
      served.complete.trans (((List.perm_cons_erase member).append_left _).append_right _)
    have first : s.arrived.Perm (client :: (s.taken.map Prod.fst ++ s.waiting.erase client ++ s.reset)) :=
      taken.trans (List.perm_middle.append_right _)
    rw [← List.append_assoc]
    exact first.trans (List.perm_append_singleton client _).symm

theorem Served.step (served : Served s) {event : Event} (taken : Backlog.step limit s event = some t) : Served t := by
  have ordered := served.ordered
  have complete := served.complete
  cases event <;> simp only [Backlog.step, Option.ite_none_right_eq_some, Option.some.injEq] at taken
  case arrive client =>
    subst taken
    refine ⟨?_, ?_⟩
    · rw [← List.append_assoc]
      exact ordered.append_right [client]
    · have last : (s.arrived ++ [client]).Perm (s.taken.map Prod.fst ++ s.waiting ++ (s.reset ++ [client])) := by
        rw [← List.append_assoc]
        exact complete.append_right _
      rw [← List.append_assoc, List.append_assoc _ [client]]
      exact last.trans (List.perm_append_comm.append_left _)
  case reset client =>
    obtain ⟨member, rfl⟩ := taken
    exact served.reset member
  case accept client kept =>
    obtain ⟨⟨_, first, _⟩, rfl⟩ := taken
    exact ⟨by rwa [take_head first], by rwa [take_head first]⟩
  case acceptAgain client =>
    obtain ⟨⟨_, first, _⟩, rfl⟩ := taken
    exact ⟨by rwa [take_head first], by rwa [take_head first]⟩
  all_goals
    obtain ⟨_, rfl⟩ := taken
    exact ⟨ordered, complete⟩

/-- Two clients and a table of four entries, one of which is in use: the first is kept and the second shed. -/
def crowded : List Event :=
  [.openElsewhere, .arrive 1, .arrive 2, .poll, .accept 1 true, .acceptFails .emfile, .closeIdle, .acceptAgain 2,
    .closeTaken, .reopen true]

/-- The acceptor has no idle descriptor, and where it could get one the table is full. -/
structure Lost (limit : Nat) (s : State) : Prop where
  idle : s.acceptor.idleFd = none
  place : s.place ≠ .shedding
  full : s.place = .exhausted ∨ s.place = .freed ∨ s.place = .reopening → s.full limit = true

/-- The clients that were closed to make room. -/
def State.shed (s : State) : List (Nat × Fate) := s.taken.filter fun entry => entry.2 = .shed

theorem Lost.openElsewhere (lost : Lost limit s) (room : s.full limit = false) :
    Lost limit { s with descriptors := s.descriptors.acquire } := by
  refine ⟨lost.idle, lost.place, fun inside => ?_⟩
  rw [lost.full inside] at room
  cases room

theorem Lost.closeElsewhere (lost : Lost limit s) {fd : Nat} (calm : s.place = .outside ∨ s.place = .accepting) :
    Lost limit { s with descriptors := s.descriptors.close fd } := by
  refine ⟨lost.idle, lost.place, fun inside => ?_⟩
  rcases calm with place | place <;> simp [place] at inside

theorem Lost.step (lost : Lost limit s) {event : Event} (calm : Calm s event)
    (taken : Backlog.step limit s event = some t) : Lost limit t ∧ t.shed = s.shed := by
  have full := lost.full
  cases event <;> simp only [Backlog.step, Option.ite_none_right_eq_some, Option.some.injEq] at taken
  case arrive client =>
    subst taken
    exact ⟨⟨lost.idle, lost.place, lost.full⟩, rfl⟩
  case openElsewhere =>
    obtain ⟨room, rfl⟩ := taken
    exact ⟨lost.openElsewhere room, rfl⟩
  case closeElsewhere fd =>
    obtain ⟨_, rfl⟩ := taken
    exact ⟨lost.closeElsewhere calm, rfl⟩
  case accept client kept =>
    obtain ⟨⟨place, _, _⟩, rfl⟩ := taken
    refine ⟨⟨lost.idle, lost.place, fun inside => ?_⟩, ?_⟩
    · simp [place] at inside
    · cases kept <;> simp [State.shed]
  case acceptFails errno =>
    obtain ⟨⟨place, may⟩, rfl⟩ := taken
    refine ⟨⟨lost.idle, ?_, fun inside => ?_⟩, rfl⟩
    · cases errno <;> simp [AcceptError.next, AcceptError.returned]
    · cases errno
      case emfile => exact may
      all_goals simp [AcceptError.next, AcceptError.returned] at inside
  case closeIdle =>
    obtain ⟨place, rfl⟩ := taken
    rw [lost.idle]
    exact ⟨⟨lost.idle, by simp, fun _ => full (.inl place)⟩, rfl⟩
  case acceptAgain client =>
    obtain ⟨⟨place, _, room⟩, rfl⟩ := taken
    rw [full (.inr (.inl place))] at room
    cases room
  case acceptAgainFails errno =>
    obtain ⟨⟨place, _⟩, rfl⟩ := taken
    exact ⟨⟨rfl, by simp, fun _ => full (.inr (.inl place))⟩, rfl⟩
  case closeTaken =>
    exact absurd taken.1 lost.place
  case reopen opened =>
    obtain ⟨⟨place, result⟩, rfl⟩ := taken
    rw [full (.inr (.inr place))] at result
    subst result
    exact ⟨⟨rfl, by simp, by simp⟩, rfl⟩
  case reset client =>
    obtain ⟨_, rfl⟩ := taken
    exact ⟨⟨lost.idle, lost.place, lost.full⟩, rfl⟩
  case poll =>
    obtain ⟨_, rfl⟩ := taken
    exact ⟨⟨lost.idle, by simp, by simp⟩, rfl⟩

/-- Without the idle descriptor a call of `handleRead` with a full table changes nothing. -/
theorem fruitless_round (place : s.place = .outside) (idle : s.acceptor.idleFd = none) (full : s.full limit = true)
    (waits : s.waiting ≠ []) : Reaches (Backlog.step limit) Calm s { s with rounds := s.rounds + 1 } := by
  obtain ⟨⟨socket, channel, listening, idleFd⟩, descriptors, waiting, stage, arrived, taken, reset, rounds,
    interrupted⟩ := s
  dsimp only at place idle full waits
  subst place idle
  simp only [State.full] at full
  have ran : exec (guarded (Backlog.step limit) Calm)
      ⟨⟨socket, channel, listening, none⟩, descriptors, waiting, .outside, arrived, taken, reset, rounds, interrupted⟩
      [.poll, .acceptFails .emfile, .closeIdle, .acceptAgainFails .emfile, .reopen false] =
      some ⟨⟨socket, channel, listening, none⟩, descriptors, waiting, .outside, arrived, taken, reset, rounds + 1,
        interrupted⟩ := by
    simp [guarded, Calm, Backlog.step, waits, full, State.mayFail, State.full, AcceptError.next, AcceptError.returned,
      AcceptError.interrupts, Descriptors.closeOpen, Acceptor.openIdleFd]
  exact exec_guarded_reaches ran

/-- Once it is lost, the idle descriptor comes back only if another thread closes one while `handleRead` is in its
    branch for `EMFILE`. Until then nobody is shed, and as long as the table is full and somebody waits, the loop can
    call `handleRead` any number of times without effect. -/
theorem idle_lost_for_good (place : s.place = .outside) (idle : s.acceptor.idleFd = none)
    (run : Reaches (step limit) Calm s t) :
    t.acceptor.idleFd = none ∧ t.shed = s.shed ∧
    (t.place = .outside → t.full limit = true → t.waiting ≠ [] →
      ∀ n, Reaches (step limit) Calm t { t with rounds := t.rounds + n }) := by
  have held : Lost limit t ∧ t.shed = s.shed := by
    apply run.keeps ⟨⟨idle, by simp [place], by simp [place]⟩, rfl⟩
    intro before event after held calm taken
    obtain ⟨lost, same⟩ := held.1.step calm taken
    exact ⟨lost, same.trans held.2⟩
  refine ⟨held.1.idle, held.2, ?_⟩
  intro outside full waits n
  induction n with
  | zero => exact .refl _
  | succ n spun =>
    exact spun.trans (fruitless_round (s := { t with rounds := t.rounds + n }) outside held.1.idle full waits)

/-- Another thread takes the entry of the idle descriptor. -/
def snatched : List Event :=
  [.openElsewhere, .arrive 1, .arrive 2, .poll, .accept 1 true, .acceptFails .emfile, .closeIdle, .openElsewhere,
    .acceptAgainFails .emfile, .reopen false]

theorem idle_lost_for_good_snatched : ∃ s : State, Reaches (step 4) Any State.initial s ∧
    s.acceptor.idleFd = none ∧ s.waiting = [2] ∧ s.shed = [] ∧
    ∀ n, Reaches (step 4) Calm s { s with rounds := s.rounds + n } := by
  have ran : (exec (step 4) State.initial snatched).map (fun s => decide (s.place = .outside ∧
      s.acceptor.idleFd = none ∧ s.waiting = [2] ∧ s.shed = [] ∧ s.full 4 = true)) = some true := by
    decide +kernel
  obtain ⟨s, reached, facts⟩ := Option.map_eq_some_iff.mp ran
  obtain ⟨place, idle, waiting, shed, full⟩ := of_decide_eq_true facts
  have still : Reaches (step 4) Calm s s := .refl s
  have lost := idle_lost_for_good place idle still
  exact ⟨s, exec_reaches reached, idle, waiting, shed, lost.2.2 place full (by simp [waiting])⟩

end Hvnetpp.Backlog
