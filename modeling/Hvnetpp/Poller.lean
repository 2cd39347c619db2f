import Mathlib.Logic.Function.Basic
import Hvnetpp.Machine.Runs
import Hvnetpp.Channel

namespace Hvnetpp.Poller

open Machine

/-- What a channel itself knows of its registration. -/
structure Registration where
  events : Events
  index : Index
  addedToLoop : Bool
  deriving DecidableEq, Repr

/-- The channels of one loop with `channels_` and the kernel's epoll set, both by descriptor; an entry of the
    set has the mask and `data.ptr`. `refused` records that `epoll_ctl` returned an error, `aborted` that
    `Poller::update` aborted for it, and `failed` that an assertion of `removeChannel` did not hold. -/
structure State (κ : Type) where
  registration : κ → Registration
  channels : Int → Option κ
  epoll : Int → Option (Events × κ)
  refused : Bool
  aborted : Bool
  failed : Bool

variable {κ : Type}

def State.initial : State κ :=
  { registration := fun _ => ⟨kNoneEvent, .unregistered, false⟩, channels := fun _ => none,
    epoll := fun _ => none, refused := false, aborted := false, failed := false }

def epollCtl (epoll : Int → Option (Events × κ)) (op : EpollOp) (fd : Int) (event : Events × κ) :
    Option (Int → Option (Events × κ)) :=
  match op, epoll fd with
  | .add, none => some (Function.update epoll fd (some event))
  | .mod, some _ => some (Function.update epoll fd (some event))
  | .del, some _ => some (Function.update epoll fd none)
  | _, _ => none

section Operations

variable [DecidableEq κ] (fd : κ → Int)

def State.register (s : State κ) (channel : κ) (registration : Registration) : State κ :=
  { s with registration := Function.update s.registration channel registration }

/-- `Poller::update`: a refused `EPOLL_CTL_DEL` is only logged. -/
def State.control (s : State κ) (op : EpollOp) (channel : κ) : State κ :=
  match epollCtl s.epoll op (fd channel) ((s.registration channel).events, channel) with
  | some epoll => { s with epoll := epoll }
  | none => { s with refused := true, aborted := s.aborted || decide (op ≠ .del) }

def State.setIndex (s : State κ) (channel : κ) (index : Index) : State κ :=
  s.register channel { s.registration channel with index := index }

def State.updateChannel (s : State κ) (channel : κ) : State κ :=
  match (s.registration channel).index with
  | .unregistered | .deleted =>
    if (s.registration channel).events = kNoneEvent then s
    else
      let s := (s.control fd .add channel).setIndex channel .added
      { s with channels := Function.update s.channels (fd channel) (some channel) }
  | .added =>
    if (s.registration channel).events = kNoneEvent then (s.control fd .del channel).setIndex channel .deleted
    else s.control fd .mod channel

def State.removeChannel (s : State κ) (channel : κ) : State κ :=
  let index := (s.registration channel).index
  let sound := s.channels (fd channel) = some channel ∧ (s.registration channel).events = kNoneEvent ∧
    index ≠ .unregistered
  let s := { s with
    failed := s.failed || decide (¬ sound)
    channels := Function.update s.channels (fd channel) none }
  let s := if index = .added then s.control fd .del channel else s
  s.setIndex channel .unregistered

/-- `Channel::update`. -/
def State.update (s : State κ) (channel : κ) : State κ :=
  if (s.registration channel).addedToLoop = false ∧ (s.registration channel).events = kNoneEvent then s
  else (s.register channel { s.registration channel with addedToLoop := true }).updateChannel fd channel

def State.setEvents (s : State κ) (channel : κ) (change : Events → Events) : State κ :=
  (s.register channel { s.registration channel with
    events := change (s.registration channel).events }).update fd channel

def State.enableReading (s : State κ) (channel : κ) : State κ :=
  s.setEvents fd channel fun events => { events with reading := true }

def State.disableReading (s : State κ) (channel : κ) : State κ :=
  s.setEvents fd channel fun events => { events with reading := false }

def State.enableWriting (s : State κ) (channel : κ) : State κ :=
  s.setEvents fd channel fun events => { events with writing := true }

def State.disableWriting (s : State κ) (channel : κ) : State κ :=
  s.setEvents fd channel fun events => { events with writing := false }

def State.disableAll (s : State κ) (channel : κ) : State κ := s.setEvents fd channel fun _ => kNoneEvent

/-- `Channel::remove`. -/
def State.remove (s : State κ) (channel : κ) : State κ :=
  if (s.registration channel).addedToLoop then
    (s.register channel { s.registration channel with addedToLoop := false }).removeChannel fd channel
  else s

end Operations

inductive Action (κ : Type) where
  | enableReading (channel : κ)
  | disableReading (channel : κ)
  | enableWriting (channel : κ)
  | disableWriting (channel : κ)
  | disableAll (channel : κ)
  | remove (channel : κ)
  deriving DecidableEq, Repr

def step [DecidableEq κ] (fd : κ → Int) (s : State κ) : Action κ → Option (State κ)
  | .enableReading channel => some (s.enableReading fd channel)
  | .disableReading channel => some (s.disableReading fd channel)
  | .enableWriting channel => some (s.enableWriting fd channel)
  | .disableWriting channel => some (s.disableWriting fd channel)
  | .disableAll channel => some (s.disableAll fd channel)
  | .remove channel => some (s.remove fd channel)

/-- A channel is removed only while it has no event enabled. -/
def RemovedQuiet (s : State κ) : Action κ → Prop
  | .remove channel => (s.registration channel).events = kNoneEvent
  | _ => True

instance (s : State κ) : (action : Action κ) → Decidable (RemovedQuiet s action)
  | .remove channel => inferInstanceAs (Decidable ((s.registration channel).events = kNoneEvent))
  | .enableReading _ | .disableReading _ | .enableWriting _ | .disableWriting _ | .disableAll _ => isTrue trivial

section Views

variable [DecidableEq κ] {fd : κ → Int} {s t : State κ} {channel other : κ}

/-- The part of the poller that concerns one channel. -/
def State.view (s : State κ) (fd : κ → Int) (channel : κ) : Channel :=
  { events := (s.registration channel).events
    index := (s.registration channel).index
    addedToLoop := (s.registration channel).addedToLoop
    tied := false
    mapped := decide (s.channels (fd channel) = some channel)
    epoll := (s.epoll (fd channel)).map Prod.fst
    failed := s.aborted || s.failed }

theorem view_control (s : State κ) (op : EpollOp) (channel : κ) :
    (s.control fd op channel).view fd channel = (s.view fd channel).epollCtl op := by
  cases op <;> cases registered : s.epoll (fd channel) <;>
    simp [State.control, epollCtl, State.view, Channel.epollCtl, registered]

theorem view_register (s : State κ) (channel : κ) (registration : Registration) :
    (s.register channel registration).view fd channel =
      { s.view fd channel with
        events := registration.events, index := registration.index, addedToLoop := registration.addedToLoop } := by
  simp only [State.register, State.view, Function.update_self]
  rfl

theorem view_map (s : State κ) (channel : κ) (entry : Option κ) :
    ({ s with channels := Function.update s.channels (fd channel) entry } : State κ).view fd channel =
      { s.view fd channel with mapped := decide (entry = some channel) } := by
  simp only [State.view, Function.update_self]

theorem view_setIndex (s : State κ) (channel : κ) (index : Index) :
    (s.setIndex channel index).view fd channel = { s.view fd channel with index := index } := by
  rw [State.setIndex, view_register]
  rfl

theorem view_updateChannel (s : State κ) (channel : κ) :
    (s.updateChannel fd channel).view fd channel = (s.view fd channel).updateChannel := by
  have events : (s.view fd channel).isNoneEvent = decide ((s.registration channel).events = kNoneEvent) := rfl
  have index : (s.view fd channel).index = (s.registration channel).index := rfl
  have adds : ({ (s.control fd .add channel).setIndex channel .added with
      channels := Function.update ((s.control fd .add channel).setIndex channel .added).channels (fd channel)
        (some channel) } : State κ).view fd channel =
      { (s.view fd channel).epollCtl .add with index := .added, mapped := true } := by
    rw [view_map, view_setIndex, view_control, decide_eq_true rfl]
  unfold State.updateChannel Channel.updateChannel
  rw [index, events]
  by_cases quiet : (s.registration channel).events = kNoneEvent
  · simp only [quiet, ↓reduceIte, decide_true]
    cases (s.registration channel).index with
    | added => rw [view_setIndex, view_control]
    | unregistered => rfl
    | deleted => rfl
  · simp only [quiet, ↓reduceIte, decide_false, Bool.false_eq_true]
    cases (s.registration channel).index with
    | added => exact view_control s .mod channel
    | unregistered => exact adds
    | deleted => exact adds

theorem view_update (s : State κ) (channel : κ) :
    (s.update fd channel).view fd channel = (s.view fd channel).update := by
  have quiet : (!(s.view fd channel).addedToLoop && (s.view fd channel).isNoneEvent) =
      decide ((s.registration channel).addedToLoop = false ∧ (s.registration channel).events = kNoneEvent) := by
    rw [Bool.decide_and]
    cases added : (s.registration channel).addedToLoop <;> simp [State.view, Channel.isNoneEvent, added]
  unfold State.update Channel.update
  rw [quiet]
  by_cases still : (s.registration channel).addedToLoop = false ∧ (s.registration channel).events = kNoneEvent
  · rw [if_pos still, decide_eq_true still, if_pos rfl]
  · rw [if_neg still, decide_eq_false still, if_neg Bool.false_ne_true, view_updateChannel, view_register]
    rfl

theorem view_setEvents (s : State κ) (channel : κ) (change : Events → Events) :
    (s.setEvents fd channel change).view fd channel =
      ({ s.view fd channel with events := change (s.view fd channel).events } : Channel).update := by
  rw [State.setEvents, view_update, view_register]
  rfl

theorem view_removeChannel (s : State κ) (channel : κ) :
    (s.removeChannel fd channel).view fd channel = (s.view fd channel).removeChannel := by
  let sound := s.channels (fd channel) = some channel ∧ (s.registration channel).events = kNoneEvent ∧
    (s.registration channel).index ≠ .unregistered
  let unmapped : State κ := { s with
    failed := s.failed || decide (¬ sound)
    channels := Function.update s.channels (fd channel) none }
  have same : ((s.view fd channel).mapped && (s.view fd channel).isNoneEvent &&
      decide ((s.view fd channel).index ≠ .unregistered)) = decide sound := by
    rw [Bool.decide_and, Bool.decide_and, ← Bool.and_assoc]
    rfl
  have erased : unmapped.view fd channel = { s.view fd channel with
      mapped := false, failed := (s.view fd channel).failed || !decide sound } := by
    have gone : decide (none = some channel) = false := decide_eq_false (by simp)
    simp only [unmapped, State.view, Function.update_self, gone, decide_not, Bool.or_assoc]
  have single : (s.view fd channel).removeChannel =
      { (if (s.registration channel).index = .added then (unmapped.view fd channel).epollCtl .del
        else unmapped.view fd channel) with index := .unregistered } := by
    rw [erased, ← same]
    rfl
  rw [single]
  change ((if (s.registration channel).index = .added then unmapped.control fd .del channel else unmapped).setIndex
    channel .unregistered).view fd channel = _
  rw [view_setIndex]
  by_cases added : (s.registration channel).index = .added
  · rw [if_pos added, if_pos added, view_control]
  · rw [if_neg added, if_neg added]

theorem view_remove (s : State κ) (channel : κ) :
    (s.remove fd channel).view fd channel = (s.view fd channel).remove := by
  have same : (s.view fd channel).addedToLoop = (s.registration channel).addedToLoop := rfl
  unfold State.remove Channel.remove
  rw [same]
  split
  · rw [view_removeChannel, view_register]
    rfl
  · rfl

/-- An operation on one channel leaves what concerns the other descriptors alone. -/
structure Local (fd : κ → Int) (channel : κ) (s t : State κ) : Prop where
  registration : ∀ other, other ≠ channel → t.registration other = s.registration other
  channels : ∀ number, number ≠ fd channel → t.channels number = s.channels number
  epoll : ∀ number, number ≠ fd channel → t.epoll number = s.epoll number

omit [DecidableEq κ] in
theorem Local.refl (s : State κ) : Local fd channel s s := ⟨fun _ _ => rfl, fun _ _ => rfl, fun _ _ => rfl⟩

omit [DecidableEq κ] in
theorem Local.trans {u : State κ} (first : Local fd channel s t) (second : Local fd channel t u) :
    Local fd channel s u where
  registration := fun other different => (second.registration other different).trans (first.registration other different)
  channels := fun number different => (second.channels number different).trans (first.channels number different)
  epoll := fun number different => (second.epoll number different).trans (first.epoll number different)

theorem Local.register (s : State κ) (channel : κ) (registration : Registration) :
    Local fd channel s (s.register channel registration) :=
  ⟨fun _ different => Function.update_of_ne different _ _, fun _ _ => rfl, fun _ _ => rfl⟩

omit [DecidableEq κ] in
theorem Local.map (s : State κ) (channel : κ) (entry : Option κ) (failed : Bool) : Local fd channel s
    { s with failed := failed, channels := Function.update s.channels (fd channel) entry } :=
  ⟨fun _ _ => rfl, fun _ different => Function.update_of_ne different _ _, fun _ _ => rfl⟩

omit [DecidableEq κ] in
theorem Local.control (s : State κ) (op : EpollOp) (channel : κ) :
    Local fd channel s (s.control fd op channel) := by
  unfold State.control
  split
  · rename_i epoll accepted
    refine ⟨fun _ _ => rfl, fun _ _ => rfl, ?_⟩
    intro number different
    unfold epollCtl at accepted
    split at accepted
    · cases accepted
      exact Function.update_of_ne different _ _
    · cases accepted
      exact Function.update_of_ne different _ _
    · cases accepted
      exact Function.update_of_ne different _ _
    · cases accepted
  · exact ⟨fun _ _ => rfl, fun _ _ => rfl, fun _ _ => rfl⟩

theorem Local.updateChannel (s : State κ) (channel : κ) : Local fd channel s (s.updateChannel fd channel) := by
  have adds : Local fd channel s { (s.control fd .add channel).setIndex channel .added with
      channels := Function.update ((s.control fd .add channel).setIndex channel .added).channels (fd channel)
        (some channel) } :=
    ((Local.control s .add channel).trans (Local.register _ channel _)).trans (Local.map _ channel _ _)
  unfold State.updateChannel
  split
  · split
    · exact Local.refl s
    · exact adds
  · split
    · exact Local.refl s
    · exact adds
  · split
    · exact (Local.control s .del channel).trans (Local.register _ channel _)
    · exact Local.control s .mod channel

theorem Local.setEvents (s : State κ) (channel : κ) (change : Events → Events) :
    Local fd channel s (s.setEvents fd channel change) := by
  unfold State.setEvents
  apply (Local.register s channel _).trans
  unfold State.update
  split
  · exact Local.refl _
  · exact (Local.register _ channel _).trans (Local.updateChannel _ channel)

theorem Local.remove (s : State κ) (channel : κ) : Local fd channel s (s.remove fd channel) := by
  unfold State.remove
  split
  · apply (Local.register s channel _).trans
    unfold State.removeChannel
    dsimp only
    refine Local.trans ?_ (Local.register _ channel _)
    split
    · exact (Local.map _ channel none _).trans (Local.control _ .del channel)
    · exact Local.map _ channel none _
  · exact Local.refl s

/-- What holds of every channel between two operations. -/
structure Consistent (fd : κ → Int) (s : State κ) : Prop where
  agrees : ∀ channel, Channel.Agrees (s.view fd channel)
  data : ∀ channel entry, s.epoll (fd channel) = some entry → entry.2 = channel
  accepted : s.refused = false

omit [DecidableEq κ] in
theorem control_accepted (s : State κ) (op : EpollOp) (channel : κ)
    (registered : (s.epoll (fd channel)).isSome = true ↔ op ≠ .add) :
    (s.control fd op channel).refused = s.refused ∧
      ∀ entry, (s.control fd op channel).epoll (fd channel) = some entry → entry.2 = channel := by
  cases op <;> cases present : s.epoll (fd channel) <;> simp [present] at registered <;>
    simp [State.control, epollCtl, present]

theorem updateChannel_accepted (s : State κ) (channel : κ)
    (registered : (s.epoll (fd channel)).isSome = true ↔ (s.registration channel).index = .added)
    (data : ∀ entry, s.epoll (fd channel) = some entry → entry.2 = channel) :
    (s.updateChannel fd channel).refused = s.refused ∧
      ∀ entry, (s.updateChannel fd channel).epoll (fd channel) = some entry → entry.2 = channel := by
  unfold State.updateChannel
  split
  · rename_i index
    split
    · exact ⟨rfl, data⟩
    · exact control_accepted s .add channel (by simp [registered, index])
  · rename_i index
    split
    · exact ⟨rfl, data⟩
    · exact control_accepted s .add channel (by simp [registered, index])
  · rename_i index
    split
    · exact control_accepted s .del channel (by simp [registered, index])
    · exact control_accepted s .mod channel (by simp [registered, index])

theorem Consistent.registered (held : Consistent fd s) (channel : κ) :
    (s.epoll (fd channel)).isSome = true ↔ (s.registration channel).index = .added := by
  have same := (held.agrees channel).epoll
  simp only [State.view] at same
  rw [← Option.isSome_map (f := Prod.fst), same]
  by_cases added : (s.registration channel).index = .added <;> simp [added]

theorem setEvents_accepted (held : Consistent fd s) (channel : κ) (change : Events → Events) :
    (s.setEvents fd channel change).refused = s.refused ∧
      ∀ entry, (s.setEvents fd channel change).epoll (fd channel) = some entry → entry.2 = channel := by
  have registered := held.registered channel
  unfold State.setEvents State.update
  split
  · exact ⟨rfl, held.data channel⟩
  · apply updateChannel_accepted
    · simp only [State.register, Function.update_self]
      exact registered
    · exact held.data channel

/-- Every other channel sees no difference. -/
theorem Local.view_eq (within : Local fd channel s t) (distinct : Function.Injective fd) (different : other ≠ channel)
    (flags : (t.aborted || t.failed) = (s.aborted || s.failed)) : t.view fd other = s.view fd other := by
  have apart : fd other ≠ fd channel := fun same => different (distinct same)
  simp only [State.view, within.registration other different, within.channels _ apart, within.epoll _ apart, flags]

theorem Consistent.local (held : Consistent fd s) (distinct : Function.Injective fd)
    (within : Local fd channel s t) (agrees : Channel.Agrees (t.view fd channel))
    (data : ∀ entry, t.epoll (fd channel) = some entry → entry.2 = channel) (refused : t.refused = s.refused) :
    Consistent fd t where
  agrees := by
    intro other
    by_cases same : other = channel
    · rw [same]
      exact agrees
    · rw [within.view_eq distinct same]
      · exact held.agrees other
      · exact agrees.sound.trans (held.agrees channel).sound.symm
  data := by
    intro other
    by_cases same : other = channel
    · rw [same]
      exact data
    · rw [within.epoll _ fun equal => same (distinct equal)]
      exact held.data other
  accepted := refused.trans held.accepted

theorem Consistent.setEvents (held : Consistent fd s) (distinct : Function.Injective fd) (channel : κ)
    (change : Events → Events) : Consistent fd (s.setEvents fd channel change) := by
  obtain ⟨refused, data⟩ := setEvents_accepted held channel change
  apply held.local distinct (Local.setEvents s channel change) _ data refused
  rw [view_setEvents]
  exact (held.agrees channel).update _

theorem Consistent.remove (held : Consistent fd s) (distinct : Function.Injective fd) {channel : κ}
    (quiet : (s.registration channel).events = kNoneEvent) : Consistent fd (s.remove fd channel) := by
  have index : (s.registration channel).index ≠ .added := fun added =>
    (held.agrees channel).added.mp added quiet
  have kept : (s.remove fd channel).refused = s.refused ∧ (s.remove fd channel).epoll = s.epoll := by
    unfold State.remove
    split
    · simp only [State.removeChannel, State.register, Function.update_self, index, ↓reduceIte]
      exact ⟨rfl, rfl⟩
    · exact ⟨rfl, rfl⟩
  apply held.local distinct (Local.remove s channel) _ _ kept.1
  · rw [view_remove]
    exact (held.agrees channel).remove quiet
  · rw [kept.2]
    exact held.data channel

theorem Consistent.step (held : Consistent fd s) (distinct : Function.Injective fd) {action : Action κ}
    (quiet : RemovedQuiet s action) (taken : Poller.step fd s action = some t) : Consistent fd t := by
  cases action <;> cases taken
  case remove channel => exact held.remove distinct quiet
  all_goals exact held.setEvents distinct _ _

theorem Consistent.initial : Consistent fd (State.initial : State κ) where
  agrees := fun _ => Channel.Agrees.create
  data := fun _ _ registered => nomatch registered
  accepted := rfl

/-- Between any two operations each channel, `channels_` and the epoll set say the same of it, and so far no
    `epoll_ctl` was refused and no assertion failed. -/
theorem registrations_agree (distinct : Function.Injective fd)
    (run : Reaches (Poller.step fd) RemovedQuiet State.initial s) (channel : κ) :
    ((s.registration channel).addedToLoop = true ↔ s.channels (fd channel) = some channel) ∧
    (s.channels (fd channel) = some channel ↔
      (s.registration channel).index = .added ∨ (s.registration channel).index = .deleted) ∧
    ((s.registration channel).index = .added ↔ (s.registration channel).events ≠ kNoneEvent) ∧
    ((s.registration channel).events ≠ kNoneEvent ↔ (s.epoll (fd channel)).isSome = true) ∧
    (∀ entry, s.epoll (fd channel) = some entry → entry = ((s.registration channel).events, channel)) ∧
    s.refused = false ∧ s.aborted = false ∧ s.failed = false := by
  have held : Consistent fd s :=
    run.keeps Consistent.initial fun _ _ _ held quiet taken => held.step distinct quiet taken
  obtain ⟨added, epoll, loop, mapped, sound⟩ := held.agrees channel
  simp only [State.view] at added epoll loop mapped sound
  have member : s.channels (fd channel) = some channel ↔ (s.registration channel).addedToLoop = true := by
    rw [← mapped, decide_eq_true_iff]
  have flags : s.aborted = false ∧ s.failed = false := Bool.or_eq_false_iff.mp sound
  refine ⟨member.symm, ?_, added, ?_, ?_, held.accepted, flags.1, flags.2⟩
  · rw [member, loop]
    cases (s.registration channel).index <;> simp
  · rw [← added, held.registered channel]
  · intro entry registered
    have index := (held.registered channel).mp (by rw [registered]; rfl)
    simp only [registered, index, ↓reduceIte, Option.map_some, Option.some.injEq] at epoll
    exact Prod.ext epoll (held.data channel entry registered)

end Views

/-- One channel is enabled, disabled, removed and enabled again while another one stays. -/
def reregistered : List (Action Bool) :=
  [.enableWriting true, .enableReading false, .enableWriting false, .disableAll false, .disableReading false,
    .remove false, .enableReading false]

theorem registrations_agree_again : ∃ s : State Bool, s.channels 3 = some false ∧ s.channels 4 = some true ∧
    s.epoll 3 = some (⟨true, false⟩, false) ∧ s.refused = false := by
  have ran : (exec (guarded (Poller.step fun channel => if channel then 4 else 3) RemovedQuiet) State.initial
      reregistered).map (fun s => (s.channels 3, s.channels 4, s.epoll 3)) =
      some (some false, some true, some (⟨true, false⟩, false)) := by decide
  obtain ⟨s, reached, facts⟩ := Option.map_eq_some_iff.mp ran
  simp only [Prod.mk.injEq] at facts
  have distinct : Function.Injective fun channel : Bool => if channel then (4 : Int) else 3 := by
    intro first second same
    cases first <;> cases second <;> simp at same ⊢
  have agree := registrations_agree distinct (exec_guarded_reaches reached) false
  exact ⟨s, facts.1, facts.2.1, facts.2.2, agree.2.2.2.2.2.1⟩

end Hvnetpp.Poller
