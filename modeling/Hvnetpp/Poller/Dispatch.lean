import Mathlib.Algebra.Order.Ring.Nat
import Mathlib.Data.Fintype.Card
import Hvnetpp.Poller

namespace Hvnetpp.Poller

open Machine

/-- The callbacks of a channel. -/
inductive Handler where
  | close
  | event (callback : EventCallback)
  deriving DecidableEq, Repr

/-- Those that `handleEventWithGuard` calls, in this order, if they are set. -/
def handlers (revents : Revents) : List Handler :=
  (if revents.hangup then [.close] else []) ++ revents.callbacks.map .event

/-- What has to be enabled for a callback to be made; errors and hangups are reported in any case. -/
def Handler.askedBy (events : Events) : Handler → Bool
  | .close | .event .error => true
  | .event .read => events.reading
  | .event .write => events.writing

/-- `epoll_wait` reports what the mask asks for, errors and hangups. `EPOLLRDHUP` is in neither of the masks. -/
def within (mask : Events) (revents : Revents) : Bool :=
  (!(revents.epollin || revents.epollpri) || mask.reading) && (!revents.epollout || mask.writing) &&
    !revents.epollrdhup

/-- Where the loop thread is in `EventLoop::loop`: user code runs in the callbacks, and in `pending` before the loop
    and in `doPendingFunctors`. -/
inductive Place (κ : Type) where
  | pending
  | polling
  | iterating (rest : List κ)
  | handling (channel : κ) (left : List Handler) (rest : List κ)
  | calling (channel : κ) (left : List Handler) (rest : List κ)
  deriving DecidableEq, Repr

/-- A callback that was made, with the events of the channel at that time and whether an operation on the channel
    was made since the poll. -/
structure Call (κ : Type) where
  channel : κ
  handler : Handler
  events : Events
  changed : Bool
  deriving DecidableEq, Repr

/-- The poller and the part of the loop that polls and dispatches; `size` is `events_.size()`. History: `polled` is the
    poller at the last poll, `changed` and `calls` are the channels operated on and the callbacks made since, and
    `omitted` counts the polls that did not report everything. -/
structure Dispatcher (κ : Type) where
  poller : State κ
  size : Nat
  revents : κ → Revents
  activeChannels : List κ
  place : Place κ
  polled : State κ
  changed : List κ
  calls : List (Call κ)
  omitted : Nat

variable {κ : Type}

def kInitEventListSize : Nat := 16

def Dispatcher.initial : Dispatcher κ :=
  { poller := .initial, size := kInitEventListSize, revents := fun _ => ⟨false, false, false, false, false, false⟩,
    activeChannels := [], place := .pending, polled := .initial, changed := [], calls := [], omitted := 0 }

inductive Turn (κ : Type) where
  | operate (action : Action κ)
  | enter
  | poll (ready : List (Int × Revents))
  | failed (errno : Nat)
  | next (locked : Bool)
  | finish
  | call
  | unset
  | returned
  | leave
  deriving DecidableEq, Repr

def Action.channel : Action κ → κ
  | .enableReading channel | .disableReading channel | .enableWriting channel | .disableWriting channel
  | .disableAll channel | .remove channel => channel

def Place.userCode : Place κ → Bool
  | .pending | .calling _ _ _ => true
  | .polling | .iterating _ | .handling _ _ _ => false

section Steps

variable [DecidableEq κ] (fd : κ → Int) (tied : κ → Bool)

/-- The entries that `epoll_wait` fills in, each with the pointer it was registered with. -/
def State.report (s : State κ) (ready : List (Int × Revents)) : List (κ × Revents) :=
  ready.filterMap fun entry => (s.epoll entry.1).map fun registered => (registered.2, entry.2)

/-- `fillActiveChannels`. -/
def Dispatcher.fillActiveChannels (s : Dispatcher κ) : List (κ × Revents) → Dispatcher κ
  | [] => s
  | (channel, revents) :: rest =>
    Dispatcher.fillActiveChannels { s with
      revents := Function.update s.revents channel revents
      activeChannels := s.activeChannels ++ [channel] } rest

/-- `activeChannels_.clear()` and `Poller::poll`. -/
def Dispatcher.poll (s : Dispatcher κ) (ready : List (Int × Revents)) : Dispatcher κ :=
  let events := s.poller.report (ready.take s.size)
  let cleared := { s with activeChannels := [] }
  let filled :=
    if 0 < events.length then
      { cleared.fillActiveChannels events with size := if events.length = s.size then s.size * 2 else s.size }
    else cleared
  { filled with
    place := .iterating filled.activeChannels
    polled := s.poller
    changed := []
    calls := []
    omitted := if s.size < ready.length then s.omitted + 1 else s.omitted }

def Dispatcher.step (s : Dispatcher κ) : Turn κ → Option (Dispatcher κ)
  | .operate action =>
    if s.place.userCode then
      (Poller.step fd s.poller action).map fun poller =>
        { s with poller := poller, changed := action.channel :: s.changed }
    else none
  | .enter =>
    match s.place with
    | .pending => some { s with place := .polling }
    | _ => none
  | .poll ready =>
    match s.place with
    | .polling => some (s.poll ready)
    | _ => none
  | .failed _ =>
    match s.place with
    | .polling =>
      some { s with
        activeChannels := [], place := .iterating [], polled := s.poller, changed := [], calls := [] }
    | _ => none
  | .next locked =>
    match s.place with
    | .iterating (channel :: rest) =>
      some { s with
        place := if tied channel && !locked then .iterating rest
          else .handling channel (handlers (s.revents channel)) rest }
    | _ => none
  | .finish =>
    match s.place with
    | .iterating [] => some { s with place := .pending }
    | _ => none
  | .call =>
    match s.place with
    | .handling channel (handler :: left) rest =>
      some { s with
        place := .calling channel left rest
        calls := s.calls ++
          [⟨channel, handler, (s.poller.registration channel).events, decide (channel ∈ s.changed)⟩] }
    | _ => none
  | .unset =>
    match s.place with
    | .handling channel (_ :: left) rest => some { s with place := .handling channel left rest }
    | _ => none
  | .returned =>
    match s.place with
    | .calling channel left rest => some { s with place := .handling channel left rest }
    | _ => none
  | .leave =>
    match s.place with
    | .handling _ [] rest => some { s with place := .iterating rest }
    | _ => none

end Steps

/-- What the kernel has ready: descriptors of the epoll set, each once, with events that it may report. -/
structure Ready (poller : State κ) (ready : List (Int × Revents)) : Prop where
  distinct : (ready.map Prod.fst).Nodup
  registered : ∀ entry ∈ ready, ∃ mask channel, poller.epoll entry.1 = some (mask, channel) ∧
    within mask entry.2 = true

theorem any_within_iff (registered : Option (Events × κ)) (revents : Revents) :
    registered.any (fun entry => within entry.1 revents) = true ↔
      ∃ mask channel, registered = some (mask, channel) ∧ within mask revents = true := by
  rcases registered with _ | ⟨mask, channel⟩ <;> simp

instance Ready.decidable (poller : State κ) (ready : List (Int × Revents)) : Decidable (Ready poller ready) :=
  decidable_of_iff
    ((ready.map Prod.fst).Nodup ∧
      ∀ entry ∈ ready, (poller.epoll entry.1).any (fun registered => within registered.1 entry.2) = true)
    ⟨fun held => ⟨held.1, fun entry member => (any_within_iff _ _).mp (held.2 entry member)⟩,
      fun held => ⟨held.distinct, fun entry member => (any_within_iff _ _).mpr (held.registered entry member)⟩⟩

/-- Channels are removed only while they have no event enabled, and the kernel reports what it may. -/
def Admitted (s : Dispatcher κ) : Turn κ → Prop
  | .operate action => RemovedQuiet s.poller action
  | .poll ready => Ready s.poller ready
  | _ => True

instance Admitted.decidable (s : Dispatcher κ) : (turn : Turn κ) → Decidable (Admitted s turn)
  | .operate action => inferInstanceAs (Decidable (RemovedQuiet s.poller action))
  | .poll ready => inferInstanceAs (Decidable (Ready s.poller ready))
  | .enter | .failed _ | .next _ | .finish | .call | .unset | .returned | .leave => isTrue trivial

theorem handlers_nodup (revents : Revents) : (handlers revents).Nodup := by
  obtain ⟨epollin, epollpri, epollout, epollerr, epollhup, epollrdhup⟩ := revents
  cases epollin <;> cases epollpri <;> cases epollout <;> cases epollerr <;> cases epollhup <;>
    cases epollrdhup <;> decide

theorem asked_of_within {mask : Events} {revents : Revents} (may : within mask revents = true) {handler : Handler}
    (member : handler ∈ handlers revents) : handler.askedBy mask = true := by
  simp only [within, Bool.and_eq_true, Bool.or_eq_true, Bool.not_eq_true'] at may
  obtain ⟨⟨reads, writes⟩, rdhup⟩ := may
  rcases handler with _ | callback
  · rfl
  · cases callback with
    | error => rfl
    | read =>
      have reported : revents.epollin || revents.epollpri || revents.epollrdhup := by
        by_contra silent
        simp [handlers, Revents.callbacks, silent] at member
      simp only [rdhup, Bool.or_false] at reported
      rcases reads with silent | reading
      · simp [silent] at reported
      · exact reading
    | write =>
      have reported : revents.epollout = true := by
        by_contra silent
        simp [handlers, Revents.callbacks, silent] at member
      rcases writes with silent | writing
      · simp [silent] at reported
      · exact writing

section Filling

variable [DecidableEq κ] {s : Dispatcher κ} {events : List (κ × Revents)} {channel : κ}

theorem fill_frame (s : Dispatcher κ) (events : List (κ × Revents)) : s.fillActiveChannels events =
    { s with
      revents := (s.fillActiveChannels events).revents
      activeChannels := s.activeChannels ++ events.map Prod.fst } := by
  induction events generalizing s with
  | nil => simp [Dispatcher.fillActiveChannels]
  | cons event rest held =>
    rw [Dispatcher.fillActiveChannels, held]
    simp

theorem fill_revents_other (other : channel ∉ events.map Prod.fst) :
    (s.fillActiveChannels events).revents channel = s.revents channel := by
  induction events generalizing s with
  | nil => rfl
  | cons event rest held =>
    rw [List.map_cons, List.mem_cons, not_or] at other
    exact (held other.2).trans (Function.update_of_ne other.1 _ _)

theorem fill_revents (distinct : (events.map Prod.fst).Nodup) {revents : Revents}
    (member : (channel, revents) ∈ events) : (s.fillActiveChannels events).revents channel = revents := by
  induction events generalizing s with
  | nil => cases member
  | cons event rest held =>
    rw [List.map_cons, List.nodup_cons] at distinct
    rcases List.mem_cons.mp member with rfl | later
    · exact (fill_revents_other distinct.1).trans (Function.update_self _ _ _)
    · exact held distinct.2 later

end Filling

section Reporting

variable [DecidableEq κ] {fd : κ → Int} {s t : State κ} {channel : κ}

/-- An entry of the epoll set is under the descriptor of its channel. -/
def Keyed (fd : κ → Int) (s : State κ) : Prop :=
  ∀ number mask channel, s.epoll number = some (mask, channel) → number = fd channel

theorem Keyed.local (keyed : Keyed fd s) (after : Consistent fd t) (within : Local fd channel s t) : Keyed fd t := by
  intro number mask other registered
  by_cases own : number = fd channel
  · subst own
    have same : other = channel := after.data channel _ registered
    rw [same]
  · rw [within.epoll number own] at registered
    exact keyed number mask other registered

theorem Local.step {action : Action κ} (taken : Poller.step fd s action = some t) : Local fd action.channel s t := by
  cases action <;> cases taken
  case remove channel => exact Local.remove s channel
  all_goals exact Local.setEvents s _ _

theorem Consistent.mask (held : Consistent fd s) {mask : Events} (registered : s.epoll (fd channel) = some (mask, channel)) :
    (s.registration channel).index = .added ∧ s.channels (fd channel) = some channel ∧
    (s.registration channel).events = mask := by
  have index := (held.registered channel).mp (by rw [registered]; rfl)
  obtain ⟨_, epoll, loop, mapped, _⟩ := held.agrees channel
  simp only [State.view, registered, index, ↓reduceIte, Option.map_some, Option.some.injEq] at epoll loop mapped
  refine ⟨index, ?_, epoll.symm⟩
  have inLoop := loop.mpr (by simp)
  rw [inLoop] at mapped
  exact of_decide_eq_true mapped

variable {ready : List (Int × Revents)}

omit [DecidableEq κ] in
theorem Ready.tail {entry : Int × Revents} (available : Ready s (entry :: ready)) : Ready s ready where
  distinct := (List.nodup_cons.mp available.distinct).2
  registered other member := available.registered other (List.mem_cons_of_mem _ member)

omit [DecidableEq κ] in
theorem Ready.take (available : Ready s ready) (count : Nat) : Ready s (ready.take count) where
  distinct := by
    rw [List.map_take]
    exact available.distinct.sublist (List.take_sublist _ _)
  registered entry member := available.registered entry (List.mem_of_mem_take member)

omit [DecidableEq κ] in
/-- Nothing that is ready is lost on the way, and each event comes with the channel of its descriptor. -/
theorem Ready.report (available : Ready s ready) (keyed : Keyed fd s) :
    (s.report ready).map (fun event => (fd event.1, event.2)) = ready := by
  induction ready with
  | nil => rfl
  | cons entry rest held =>
    obtain ⟨mask, channel, registered, _⟩ := available.registered entry List.mem_cons_self
    have first : s.report (entry :: rest) = (channel, entry.2) :: s.report rest := by
      rw [State.report, List.filterMap_cons, registered]
      rfl
    rw [first, List.map_cons, held available.tail, ← keyed _ _ _ registered]

omit [DecidableEq κ] in
theorem Ready.length (available : Ready s ready) (keyed : Keyed fd s) : (s.report ready).length = ready.length := by
  rw [← List.length_map (fun event => (fd event.1, event.2)), available.report keyed]

omit [DecidableEq κ] in
theorem Ready.channels_nodup (available : Ready s ready) (keyed : Keyed fd s) : ((s.report ready).map Prod.fst).Nodup := by
  have distinct := available.distinct
  rw [← available.report keyed, List.map_map] at distinct
  have through : (Prod.fst ∘ fun event : κ × Revents => (fd event.1, event.2)) = fd ∘ Prod.fst := rfl
  rw [through, ← List.map_map] at distinct
  exact distinct.of_map fd

theorem Ready.member (available : Ready s ready) (keyed : Keyed fd s) (held : Consistent fd s) {revents : Revents}
    (member : (channel, revents) ∈ s.report ready) :
    (s.registration channel).index = .added ∧ s.channels (fd channel) = some channel ∧
    Poller.within (s.registration channel).events revents = true := by
  obtain ⟨entry, listed, told⟩ := List.mem_filterMap.mp member
  obtain ⟨mask, pointer, registered, may⟩ := available.registered entry listed
  rw [registered, Option.map_some, Option.some.injEq, Prod.mk.injEq] at told
  obtain ⟨rfl, rfl⟩ := told
  have number := keyed _ _ _ registered
  rw [number] at registered
  obtain ⟨index, mapped, events⟩ := held.mask registered
  rw [events]
  exact ⟨index, mapped, may⟩

end Reporting

/-- How far the loop has come through the channels of the last poll. -/
def Position (s : Dispatcher κ) : Place κ → Prop
  | .pending | .polling => True
  | .iterating rest =>
    ∃ past, s.activeChannels = past ++ rest ∧ ∀ call ∈ s.calls, call.channel ∈ past
  | .handling channel left rest | .calling channel left rest =>
    ∃ past called, s.activeChannels = past ++ channel :: rest ∧ handlers (s.revents channel) = called ++ left ∧
      ∀ call ∈ s.calls, call.channel ∈ past ∨ call.channel = channel ∧ call.handler ∈ called

/-- What holds since the last poll. -/
structure Dispatching (fd : κ → Int) (s : Dispatcher κ) : Prop where
  distinct : s.activeChannels.Nodup
  reported : ∀ channel ∈ s.activeChannels, (s.polled.registration channel).index = .added ∧
    s.polled.channels (fd channel) = some channel ∧
    Poller.within (s.polled.registration channel).events (s.revents channel) = true
  unchanged : ∀ channel, channel ∉ s.changed → s.poller.registration channel = s.polled.registration channel
  calls : ∀ call ∈ s.calls, call.channel ∈ s.activeChannels ∧ call.handler ∈ handlers (s.revents call.channel) ∧
    (call.changed = false → call.events = (s.polled.registration call.channel).events)
  once : (s.calls.map fun call => (call.channel, call.handler)).Nodup
  position : Position s s.place

section Rounds

variable [DecidableEq κ] {fd : κ → Int} {tied : κ → Bool} {s t : Dispatcher κ}

omit [DecidableEq κ] in
theorem Dispatching.initial : Dispatching fd (Dispatcher.initial : Dispatcher κ) where
  distinct := .nil
  reported _ member := by cases member
  unchanged _ _ := rfl
  calls _ member := by cases member
  once := .nil
  position := trivial

omit [DecidableEq κ] in
/-- Only the place in the loop changes. -/
theorem Dispatching.moves (dispatching : Dispatching fd s) {place : Place κ} (position : Position s place) :
    Dispatching fd { s with place := place } := by
  refine { dispatching with position := ?_ }
  cases place <;> exact position

theorem Dispatching.call (dispatching : Dispatching fd s) {channel : κ} {handler : Handler} {left : List Handler}
    {rest : List κ} (place : s.place = .handling channel (handler :: left) rest) :
    Dispatching fd { s with
      place := .calling channel left rest
      calls := s.calls ++
        [⟨channel, handler, (s.poller.registration channel).events, decide (channel ∈ s.changed)⟩] } := by
  have position := dispatching.position
  rw [place] at position
  obtain ⟨past, called, active, all, before⟩ := position
  have listed : channel ∈ s.activeChannels := by rw [active]; simp
  have distinct : (past ++ channel :: rest).Nodup := active ▸ dispatching.distinct
  have fresh : handler ∉ called := by
    have nodup := handlers_nodup (s.revents channel)
    rw [all, List.nodup_append] at nodup
    intro member
    exact nodup.2.2 handler member handler List.mem_cons_self rfl
  refine { dispatching with calls := ?_, once := ?_, position := ?_ }
  · intro call member
    rcases List.mem_append.mp member with old | new
    · exact dispatching.calls call old
    · rw [List.mem_singleton.mp new]
      refine ⟨listed, by rw [all]; simp, fun same => ?_⟩
      rw [dispatching.unchanged channel (of_decide_eq_false same)]
  · rw [List.map_append, List.map_singleton, List.nodup_append]
    refine ⟨dispatching.once, List.nodup_singleton _, ?_⟩
    intro pair member other last same
    rw [List.mem_singleton] at last
    subst same last
    obtain ⟨call, called_, equal⟩ := List.mem_map.mp member
    obtain ⟨rfl, rfl⟩ := Prod.mk.inj equal
    rcases before call called_ with earlier | ⟨_, again⟩
    · exact (List.nodup_append.mp distinct).2.2 _ earlier _ List.mem_cons_self rfl
    · exact fresh again
  · refine ⟨past, called ++ [handler], active, by rw [all]; simp, ?_⟩
    intro call member
    rcases List.mem_append.mp member with old | new
    · rcases before call old with earlier | ⟨same, among⟩
      · exact .inl earlier
      · exact .inr ⟨same, List.mem_append_left _ among⟩
    · rw [List.mem_singleton.mp new]
      exact .inr ⟨rfl, by simp⟩

theorem poll_eq (s : Dispatcher κ) (ready : List (Int × Revents)) : s.poll ready =
    { s with
      size := if 0 < (s.poller.report (ready.take s.size)).length ∧
        (s.poller.report (ready.take s.size)).length = s.size then s.size * 2 else s.size
      revents := ({ s with activeChannels := [] }.fillActiveChannels (s.poller.report (ready.take s.size))).revents
      activeChannels := (s.poller.report (ready.take s.size)).map Prod.fst
      place := .iterating ((s.poller.report (ready.take s.size)).map Prod.fst)
      polled := s.poller
      changed := []
      calls := []
      omitted := if s.size < ready.length then s.omitted + 1 else s.omitted } := by
  have frame := fill_frame { s with activeChannels := [] } (s.poller.report (ready.take s.size))
  unfold Dispatcher.poll
  by_cases some : 0 < (s.poller.report (ready.take s.size)).length
  · simp only [some, ↓reduceIte, true_and]
    rw [frame]
    rfl
  · have none : s.poller.report (ready.take s.size) = [] := List.eq_nil_of_length_eq_zero (by omega)
    simp [none, Dispatcher.fillActiveChannels]

theorem Dispatching.poll (consistent : Consistent fd s.poller) (keyed : Keyed fd s.poller) {ready : List (Int × Revents)}
    (available : Ready s.poller ready) : Dispatching fd (s.poll ready) := by
  have sent := available.take s.size
  have nodup := sent.channels_nodup keyed
  rw [poll_eq]
  exact {
    distinct := nodup
    reported := by
      intro channel member
      obtain ⟨⟨_, revents⟩, listed, rfl⟩ := List.mem_map.mp member
      dsimp only
      rw [fill_revents nodup listed]
      exact sent.member keyed consistent listed
    unchanged := fun _ _ => rfl
    calls := fun _ member => by cases member
    once := .nil
    position := ⟨[], rfl, fun _ member => by cases member⟩ }

theorem Dispatching.operate (dispatching : Dispatching fd s) {action : Action κ} {poller : State κ}
    (taken : Poller.step fd s.poller action = some poller) :
    Dispatching fd { s with poller := poller, changed := action.channel :: s.changed } := by
  refine { dispatching with unchanged := ?_, position := ?_ }
  · intro channel other
    rw [List.mem_cons, not_or] at other
    rw [(Local.step taken).registration channel other.1]
    exact dispatching.unchanged channel other.2
  · have position := dispatching.position
    cases place : s.place <;> rw [place] at position <;> exact position

/-- What a step of the loop does. -/
inductive Moves (fd : κ → Int) (s : Dispatcher κ) : Turn κ → Dispatcher κ → Prop
  | operate {action : Action κ} {poller : State κ} : Poller.step fd s.poller action = some poller →
    Moves fd s (.operate action) { s with poller := poller, changed := action.channel :: s.changed }
  | poll {ready : List (Int × Revents)} : Moves fd s (.poll ready) (s.poll ready)
  | failed {errno : Nat} : Moves fd s (.failed errno)
      { s with activeChannels := [], place := .iterating [], polled := s.poller, changed := [], calls := [] }
  | call {channel : κ} {handler : Handler} {left : List Handler} {rest : List κ} :
    s.place = .handling channel (handler :: left) rest → Moves fd s .call { s with
      place := .calling channel left rest
      calls := s.calls ++
        [⟨channel, handler, (s.poller.registration channel).events, decide (channel ∈ s.changed)⟩] }
  | moves {turn : Turn κ} {place : Place κ} : (Position s s.place → Position s place) →
    Moves fd s turn { s with place := place }

theorem step_moves {turn : Turn κ} (taken : s.step fd tied turn = some t) : Moves fd s turn t := by
  cases turn with
  | operate action =>
    simp only [Dispatcher.step, Option.ite_none_right_eq_some] at taken
    obtain ⟨_, taken⟩ := taken
    obtain ⟨poller, moved, rfl⟩ := Option.map_eq_some_iff.mp taken
    exact .operate moved
  | enter =>
    cases place : s.place <;> simp only [Dispatcher.step, place, reduceCtorEq] at taken
    cases taken
    exact .moves fun _ => trivial
  | poll ready =>
    cases place : s.place <;> simp only [Dispatcher.step, place, reduceCtorEq] at taken
    cases taken
    exact .poll
  | failed errno =>
    cases place : s.place <;> simp only [Dispatcher.step, place, reduceCtorEq] at taken
    cases taken
    exact .failed
  | next locked =>
    cases place : s.place <;> simp only [Dispatcher.step, place, reduceCtorEq] at taken
    rename_i list
    rcases list with _ | ⟨channel, rest⟩ <;> cases taken
    refine .moves fun position => ?_
    rw [place] at position
    obtain ⟨past, active, before⟩ := position
    split
    · refine ⟨past ++ [channel], by rw [active]; simp, ?_⟩
      intro call member
      exact List.mem_append_left _ (before call member)
    · exact ⟨past, [], active, rfl, fun call member => .inl (before call member)⟩
  | finish =>
    cases place : s.place <;> simp only [Dispatcher.step, place, reduceCtorEq] at taken
    rename_i list
    rcases list with _ | ⟨channel, rest⟩ <;> cases taken
    exact .moves fun _ => trivial
  | call =>
    cases place : s.place <;> simp only [Dispatcher.step, place, reduceCtorEq] at taken
    rename_i channel left rest
    rcases left with _ | ⟨handler, left⟩ <;> cases taken
    exact .call place
  | unset =>
    cases place : s.place <;> simp only [Dispatcher.step, place, reduceCtorEq] at taken
    rename_i channel left rest
    rcases left with _ | ⟨handler, left⟩ <;> cases taken
    refine .moves fun position => ?_
    rw [place] at position
    obtain ⟨past, called, active, all, before⟩ := position
    refine ⟨past, called ++ [handler], active, by rw [all]; simp, ?_⟩
    intro call member
    rcases before call member with earlier | ⟨same, among⟩
    · exact .inl earlier
    · exact .inr ⟨same, List.mem_append_left _ among⟩
  | returned =>
    cases place : s.place <;> simp only [Dispatcher.step, place, reduceCtorEq] at taken
    cases taken
    refine .moves fun position => ?_
    rw [place] at position
    exact position
  | leave =>
    cases place : s.place <;> simp only [Dispatcher.step, place, reduceCtorEq] at taken
    rename_i channel left rest
    rcases left with _ | ⟨handler, left⟩ <;> cases taken
    refine .moves fun position => ?_
    rw [place] at position
    obtain ⟨past, called, active, _, before⟩ := position
    refine ⟨past ++ [channel], by rw [active]; simp, ?_⟩
    intro call member
    rcases before call member with earlier | ⟨same, _⟩
    · exact List.mem_append_left _ earlier
    · rw [same]
      simp

/-- The poller between any two steps of the loop. -/
structure Registered (fd : κ → Int) (s : Dispatcher κ) : Prop where
  consistent : Consistent fd s.poller
  keyed : Keyed fd s.poller

theorem Registered.initial : Registered fd (Dispatcher.initial : Dispatcher κ) :=
  ⟨Consistent.initial, fun _ _ _ registered => by cases registered⟩

theorem Registered.step (registered : Registered fd s) (distinct : Function.Injective fd) {turn : Turn κ}
    (admitted : Admitted s turn) (taken : s.step fd tied turn = some t) : Registered fd t := by
  cases step_moves taken with
  | operate moved =>
    have consistent := registered.consistent.step distinct admitted moved
    exact ⟨consistent, registered.keyed.local consistent (Local.step moved)⟩
  | poll =>
    rw [poll_eq]
    exact ⟨registered.consistent, registered.keyed⟩
  | failed => exact ⟨registered.consistent, registered.keyed⟩
  | call _ => exact ⟨registered.consistent, registered.keyed⟩
  | moves _ => exact ⟨registered.consistent, registered.keyed⟩

theorem Dispatching.step (registered : Registered fd s) (dispatching : Dispatching fd s) {turn : Turn κ}
    (admitted : Admitted s turn) (taken : s.step fd tied turn = some t) : Dispatching fd t := by
  cases step_moves taken with
  | operate moved => exact dispatching.operate moved
  | poll => exact .poll registered.consistent registered.keyed admitted
  | failed =>
    exact {
      distinct := .nil
      reported := fun _ member => by cases member
      unchanged := fun _ _ => rfl
      calls := fun _ member => by cases member
      once := .nil
      position := ⟨[], rfl, fun _ member => by cases member⟩ }
  | call place => exact dispatching.call place
  | moves onward => exact dispatching.moves (onward dispatching.position)

/-- In one turn of the loop each callback of a channel is made at most once, and only if the poll of this turn found
    the channel registered and asking for it; the events of a channel that nobody touched since are still the same. -/
theorem callbacks_asked_for (distinct : Function.Injective fd)
    (run : Reaches (Dispatcher.step fd tied) Admitted Dispatcher.initial s) :
    (s.calls.map fun call => (call.channel, call.handler)).Nodup ∧
    ∀ call ∈ s.calls, s.polled.channels (fd call.channel) = some call.channel ∧
      (s.polled.registration call.channel).index = .added ∧
      call.handler.askedBy (s.polled.registration call.channel).events = true ∧
      (call.changed = false → call.events = (s.polled.registration call.channel).events) := by
  have held : Registered fd s ∧ Dispatching fd s := by
    apply run.keeps ⟨Registered.initial, Dispatching.initial⟩
    intro before turn after held admitted taken
    exact ⟨held.1.step distinct admitted taken, .step held.1 held.2 admitted taken⟩
  refine ⟨held.2.once, fun call made => ?_⟩
  obtain ⟨active, among, same⟩ := held.2.calls call made
  obtain ⟨index, mapped, may⟩ := held.2.reported call.channel active
  exact ⟨mapped, index, asked_of_within may among, same⟩

/-- The read callback of a channel disables writing, and the write callback of the same turn is still made. -/
def disabledMeanwhile : List (Turn Bool) :=
  [.operate (.enableReading false), .operate (.enableReading true), .operate (.enableWriting true), .enter,
    .poll [(4, ⟨true, false, true, false, false, false⟩), (3, ⟨true, false, false, false, false, false⟩)],
    .next true, .call, .operate (.disableWriting true), .returned, .call, .returned, .leave, .next true, .call]

theorem callbacks_asked_for_meanwhile : ∃ s : Dispatcher Bool,
    s.calls = [⟨true, .event .read, ⟨true, true⟩, false⟩, ⟨true, .event .write, ⟨true, false⟩, true⟩,
      ⟨false, .event .read, ⟨true, false⟩, false⟩] ∧
    (s.polled.registration true).events.writing = true := by
  have ran : (exec (guarded (Dispatcher.step (fun channel => if channel then 4 else 3) id) Admitted)
      Dispatcher.initial disabledMeanwhile).map (fun s => s.calls) =
      some [⟨true, .event .read, ⟨true, true⟩, false⟩, ⟨true, .event .write, ⟨true, false⟩, true⟩,
        ⟨false, .event .read, ⟨true, false⟩, false⟩] := by decide +kernel
  obtain ⟨s, reached, calls⟩ := Option.map_eq_some_iff.mp ran
  have distinct : Function.Injective fun channel : Bool => if channel then (4 : Int) else 3 := by
    intro first second same
    cases first <;> cases second <;> simp at same ⊢
  have asked := callbacks_asked_for distinct (exec_guarded_reaches reached)
  rw [calls] at asked
  exact ⟨s, calls, (asked.2 ⟨true, .event .write, ⟨true, false⟩, true⟩ (by simp)).2.2.1⟩

/-- At no time more than `count` channels are registered. -/
def Populated (fd : κ → Int) (count : Nat) (s : State κ) : Prop :=
  ∀ channels : List κ, channels.Nodup → (∀ channel ∈ channels, s.channels (fd channel) = some channel) →
    channels.length ≤ count

/-- Each doubling of `events_` follows a poll that filled it. -/
structure Sized (count : Nat) (s : Dispatcher κ) : Prop where
  doubled : ∃ k, s.size = kInitEventListSize * 2 ^ k ∧ s.omitted ≤ k
  bounded : s.size ≤ max kInitEventListSize (2 * count)

theorem Sized.poll {count : Nat} (sized : Sized count s) (registered : Registered fd s)
    (populated : Populated fd count s.poller) {ready : List (Int × Revents)} (available : Ready s.poller ready) :
    Sized count (s.poll ready) := by
  obtain ⟨k, size, omitted⟩ := sized.doubled
  have sent := available.take s.size
  have length := sent.length registered.keyed
  have fits : (s.poller.report (ready.take s.size)).length ≤ count := by
    rw [← List.length_map Prod.fst]
    apply populated _ (sent.channels_nodup registered.keyed)
    intro channel member
    obtain ⟨⟨_, revents⟩, listed, rfl⟩ := List.mem_map.mp member
    exact (sent.member registered.keyed registered.consistent listed).2.1
  have bounded := sized.bounded
  have positive : 0 < s.size := by
    rw [size]
    exact Nat.mul_pos (by decide) (Nat.two_pow_pos k)
  rw [List.length_take] at length
  rw [poll_eq]
  by_cases full : (s.poller.report (ready.take s.size)).length = s.size
  · rw [if_pos ⟨by omega, full⟩]
    refine ⟨⟨k + 1, by rw [size, pow_succ, Nat.mul_assoc], ?_⟩, by dsimp only; omega⟩
    dsimp only
    split <;> omega
  · rw [if_neg fun both => full both.2, if_neg (by omega)]
    exact ⟨⟨k, size, omitted⟩, bounded⟩

theorem Sized.step {count : Nat} (sized : Sized count s) (registered : Registered fd s) {turn : Turn κ}
    (admitted : Admitted s turn) (populated : Populated fd count s.poller) (taken : s.step fd tied turn = some t) :
    Sized count t := by
  cases step_moves taken with
  | operate _ => exact ⟨sized.doubled, sized.bounded⟩
  | poll => exact sized.poll registered populated admitted
  | failed => exact ⟨sized.doubled, sized.bounded⟩
  | call _ => exact ⟨sized.doubled, sized.bounded⟩
  | moves _ => exact ⟨sized.doubled, sized.bounded⟩

/-- `events_` grows to at most twice the number of channels, and each poll that left something out has doubled it. -/
theorem event_list_bounded {count : Nat} (distinct : Function.Injective fd)
    (run : Reaches (Dispatcher.step fd tied) (fun s turn => Admitted s turn ∧ Populated fd count s.poller)
      Dispatcher.initial s) :
    (∃ k, s.size = kInitEventListSize * 2 ^ k ∧ s.omitted ≤ k) ∧ s.size ≤ max kInitEventListSize (2 * count) := by
  have held : Registered fd s ∧ Sized count s := by
    apply run.keeps ⟨Registered.initial, ⟨0, rfl, Nat.le_refl 0⟩, Nat.le_max_left _ _⟩
    intro before turn after held admitted taken
    exact ⟨held.1.step distinct admitted.1 taken, held.2.step held.1 admitted.1 admitted.2 taken⟩
  exact ⟨held.2.doubled, held.2.bounded⟩

/-- Seventeen channels are readable at the first poll. -/
def crowded : List (Turn (Fin 17)) :=
  (List.finRange 17).map (fun channel => .operate (.enableReading channel)) ++
    [.enter, .poll ((List.finRange 17).map fun channel =>
      ((channel : Nat), ⟨true, false, false, false, false, false⟩))]

theorem event_list_bounded_crowded : ∃ s : Dispatcher (Fin 17),
    s.omitted = 1 ∧ s.activeChannels.length = 16 ∧ s.size = 32 ∧ s.size ≤ 34 := by
  have ran : (exec (guarded (Dispatcher.step (fun channel : Fin 17 => (channel : Nat)) fun _ => false) Admitted)
      Dispatcher.initial crowded).map (fun s => (s.omitted, s.activeChannels.length, s.size)) =
      some (1, 16, 32) := by decide +kernel
  obtain ⟨s, reached, facts⟩ := Option.map_eq_some_iff.mp ran
  simp only [Prod.mk.injEq] at facts
  have distinct : Function.Injective fun channel : Fin 17 => ((channel : Nat) : Int) := by
    intro first second same
    exact Fin.ext (Int.ofNat_inj.mp same)
  have populated (poller : State (Fin 17)) : 
      Populated (fun channel : Fin 17 => ((channel : Nat) : Int)) 17 poller := by
    intro channels nodup _
    have count := nodup.length_le_card
    rwa [Fintype.card_fin] at count
  have bounded := event_list_bounded distinct
    ((exec_guarded_reaches reached).weaken fun before _ admitted => ⟨admitted, populated before.poller⟩)
  exact ⟨s, facts.1, facts.2.1, facts.2.2, bounded.2⟩

end Rounds

end Hvnetpp.Poller
