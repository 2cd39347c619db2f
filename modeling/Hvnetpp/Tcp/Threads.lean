import Hvnetpp.Loop.Order
import Hvnetpp.Loop.Rounds
import Hvnetpp.Tcp.Lifecycle
import Hvnetpp.Tcp.Pair

namespace Hvnetpp.Tcp

open Machine

/-- What `send` and `shutdown` capture for `queueInLoop`. -/
inductive Bound where
  | send (message : List UInt8)
  | shutdown
  deriving DecidableEq, Repr

/-- The message among what a functor captured. -/
def Bound.message {F : Type} (functor : F) : Bound → List (F × List UInt8)
  | .send message => [(functor, message)]
  | .shutdown => []

/-- A connection, its loop and the threads that use it. `bound` are the captured calls that queued functors still
    have to make. History: `sends` are the messages captured, and `log` those that reached `sendInLoop`, each
    with the functor that brought it, or none where the loop thread called `send` itself. -/
structure Shared (ι : Type) where
  loop : Loop.State ι
  session : Session
  bound : Loop.Functor ι → Option Bound
  sends : List (Loop.Functor ι × List UInt8)
  log : List (Option (Loop.Functor ι) × List UInt8)

variable {ι : Type}

def Shared.initial (threadId : ι) (mapped : Bool) (session : Session) : Shared ι :=
  { loop := .initial threadId mapped, session := session, bound := fun _ => none, sends := [], log := [] }

/-- The captured call that the functor being executed has still to make. -/
def Shared.request (s : Shared ι) : Option Bound := s.loop.phase.current.bind s.bound

inductive Call (ι : Type) where
  | loop (action : Loop.Action ι)
  | send (thread : ι) (data : List UInt8) (result : WriteResult)
  | sendBuffer (thread : ι) (data : List UInt8) (result : WriteResult)
  | shutdown (thread : ι)
  | execute (result : WriteResult)
  | event (action : Action)
  deriving DecidableEq, Repr

section Steps

variable [DecidableEq ι]

/-- The thread is in no call, and the loop thread not in library code either. -/
def Shared.mayCall (s : Shared ι) (thread : ι) : Prop :=
  s.loop.mayCall thread ∧ (thread = s.loop.threadId → s.request = none)

instance (s : Shared ι) (thread : ι) : Decidable (s.mayCall thread) := inferInstanceAs (Decidable (_ ∧ (_ → _)))

def Shared.act (s : Shared ι) (action : Action) : Option (Shared ι) :=
  (Tcp.step s.session action).map fun session => { s with session := session }

/-- A message comes to `sendInLoop`, if the connection is connected then. -/
def Shared.deliver (s : Shared ι) (origin : Option (Loop.Functor ι)) (message : List UInt8) (result : WriteResult) :
    Option (Shared ι) :=
  (s.act (.sendBuffer message result)).map fun t =>
    { t with log := if s.session.conn.state = .kConnected then s.log ++ [(origin, message)] else s.log }

/-- `queueInLoop` with a captured call, up to the point where the functor object exists. -/
def Shared.queueInLoop (s : Shared ι) (thread : ι) (call : Bound) : Option (Shared ι) :=
  (Loop.step s.loop (.call thread)).map fun loop =>
    { s with
      loop := loop
      bound := Function.update s.bound ⟨thread, s.loop.calls thread⟩ (some call)
      sends := s.sends ++ call.message ⟨thread, s.loop.calls thread⟩ }

/-- `send(Buffer*)` with what the buffer holds. -/
def Shared.sendBuffer (s : Shared ι) (thread : ι) (data : List UInt8) (result : WriteResult) : Option (Shared ι) :=
  if thread = s.loop.threadId then s.deliver none data result
  else if s.session.conn.state = .kConnected then s.queueInLoop thread (.send data)
  else some s

/-- `send(const void*, size_t)`. -/
def Shared.send (s : Shared ι) (thread : ι) (data : List UInt8) (result : WriteResult) : Option (Shared ι) :=
  if data = [] then some s else s.sendBuffer thread data result

def Shared.shutdown (s : Shared ι) (thread : ι) : Option (Shared ι) :=
  if thread = s.loop.threadId then s.act .shutdown
  else if s.session.conn.state = .kConnected then s.queueInLoop thread .shutdown
  else some s

/-- The functor makes its captured call, which checks the state of the connection again. -/
def Shared.execute (s : Shared ι) (result : WriteResult) : Option (Shared ι) :=
  s.loop.phase.current.bind fun functor =>
    let done := { s with bound := Function.update s.bound functor none }
    match s.bound functor with
    | some (.send message) => done.deliver (some functor) message result
    | some .shutdown => done.act .shutdown
    | none => none

/-- What the loop's own steps have to wait for: a functor for its captured call, a new call for the one the thread
    is in. -/
def Shared.mayLoop (s : Shared ι) : Loop.Action ι → Prop
  | .call thread | .quit thread => s.mayCall thread
  | .done | .served => s.request = none
  | _ => True

instance (s : Shared ι) : (action : Loop.Action ι) → Decidable (s.mayLoop action)
  | .call thread | .quit thread => inferInstanceAs (Decidable (s.mayCall thread))
  | .done | .served => inferInstanceAs (Decidable (s.request = none))
  | .loadHead _ | .loadTail _ | .exchange _ _ | .store _ | .commit _ | .push _ | .wake _ | .quitWake _ | .enter
  | .poll _ | .dispatch | .handled | .drain | .peek _ | .take | .clear | .advance | .swap | .serve | .leave =>
    isTrue trivial

/-- The events of the connection's channel and its removal, which all come on the loop thread. -/
def Action.event : Action → Bool
  | .handleRead _ | .handleWrite _ | .handleError _ | .handleClose | .connectDestroyed => true
  | .sendInLoop _ _ | .send _ _ | .sendBuffer _ _ | .shutdown => false

def Shared.step (s : Shared ι) : Call ι → Option (Shared ι)
  | .loop action =>
    if s.mayLoop action then (Loop.step s.loop action).map fun loop => { s with loop := loop } else none
  | .send thread data result => if s.mayCall thread then s.send thread data result else none
  | .sendBuffer thread data result => if s.mayCall thread then s.sendBuffer thread data result else none
  | .shutdown thread => if s.mayCall thread then s.shutdown thread else none
  | .execute result => if s.loop.callers s.loop.threadId = .outside then s.execute result else none
  | .event action => if action.event ∧ s.mayCall s.loop.threadId then s.act action else none

/-- The loop's part of a call keeps to the bounds of the queue, and each thread to one route while it waits. -/
def Shared.Routed (s : Shared ι) : Call ι → Prop
  | .loop action => Loop.Bounded s.loop action ∧ Loop.RouteKept s.loop action
  | _ => True

instance (s : Shared ι) (call : Call ι) : Decidable (s.Routed call) :=
  match call with
  | .loop action => inferInstanceAs (Decidable (Loop.Bounded s.loop action ∧ Loop.RouteKept s.loop action))
  | .send _ _ _ | .sendBuffer _ _ _ | .shutdown _ | .execute _ | .event _ => isTrue trivial

/-- The messages a thread handed over, in the order of its calls. -/
def Shared.captured (s : Shared ι) (thread : ι) : List (Loop.Functor ι × List UInt8) :=
  s.sends.filter (·.1.caller = thread)

def Shared.brought (s : Shared ι) : List (Loop.Functor ι × List UInt8) :=
  s.log.filterMap fun entry => entry.1.map (·, entry.2)

/-- Those of them that reached `sendInLoop`. -/
def Shared.delivered (s : Shared ι) (thread : ι) : List (Loop.Functor ι × List UInt8) :=
  s.brought.filter (·.1.caller = thread)

end Steps

theorem Legal.connected {c : TcpConnection} {reply : Reply} (legal : Legal c reply)
    (after : reply.conn.state = .kConnected) : c.state = .kConnected := by
  cases legal with
  | done _ state _ => exact state.symm.trans after
  | message _ _ state _ => exact state.symm.trans after
  | closing _ _ state _ => cases state.symm.trans after

/-- No operation leads back to `kConnected`. -/
theorem connected_before {s t : Session} (inv : Inv s) {action : Action} (taken : Tcp.step s action = some t)
    (after : t.conn.state = .kConnected) : s.conn.state = .kConnected := by
  have established : s.conn.state ≠ .kConnecting := by
    cases inv with
    | live _ state _ => rcases state with state | state <;> rw [state] <;> decide
    | closed state _ => rw [state]; decide
  cases action <;> simp only [Tcp.step] at taken
  case sendInLoop data result =>
    split at taken <;> cases taken
    exact Legal.connected (.sendInLoop _ _ _) after
  case send data result =>
    split at taken <;> cases taken
    exact Legal.connected (.send _ _ _) after
  case sendBuffer data result =>
    split at taken <;> cases taken
    exact Legal.connected (.sendBuffer _ _ _) after
  case shutdown =>
    cases taken
    by_contra other
    rw [TcpConnection.shutdown, if_neg other] at after
    exact other after
  case handleRead result =>
    cases taken
    exact Legal.connected (.handleRead established result) after
  case handleWrite result =>
    split at taken <;> cases taken
    exact Legal.connected (.handleWrite _ result) after
  case handleError err =>
    cases taken
    exact Legal.connected (.handleSocketError _ err) after
  case handleClose =>
    cases taken
    cases (rfl : s.conn.handleClose.conn.state = .kDisconnected).symm.trans after
  case connectDestroyed =>
    cases taken
    cases (connectDestroyed_frame s.conn inv.quiet).1.symm.trans after

variable {s t : Shared ι}

theorem deliver_eq {origin : Option (Loop.Functor ι)} {message : List UInt8} {result : WriteResult}
    (taken : s.deliver origin message result = some t) : ∃ session,
      Tcp.step s.session (.sendBuffer message result) = some session ∧
      if s.session.conn.state = .kConnected then
        t = { s with session := session, log := s.log ++ [(origin, message)] } ∧
          session.sent = s.session.sent ++ message
      else t = { s with session := session } ∧ session.sent = s.session.sent := by
  obtain ⟨_, acted, rfl⟩ := Option.map_eq_some_iff.mp taken
  obtain ⟨session, stepped, rfl⟩ := Option.map_eq_some_iff.mp acted
  refine ⟨session, stepped, ?_⟩
  simp only [Tcp.step] at stepped
  split at stepped <;> cases stepped
  split <;> exact ⟨rfl, rfl⟩

section Order

variable [DecidableEq ι]

/-- What a thread queued before the functor that is now executed is finished. -/
theorem earlier_finished {loop : Loop.State ι} (inv : Loop.Inv loop) (ordered : Loop.Ordered loop)
    {f g : Loop.Functor ι} (current : loop.phase.current = some f) (same : g.caller = f.caller)
    (earlier : g.seq < f.seq) : g ∈ loop.finished := by
  have history := inv.history
  rw [current, Option.toList_some] at history
  have listed : f ∈ loop.pipeline := by
    rw [Loop.State.pipeline, history]
    simp
  obtain ⟨made, _⟩ := (inv.passed f).mp listed
  have handed : loop.handed g := by
    constructor
    · rw [same]
      omega
    · intro inHand
      have newest := (inv.holding inHand.1).2.1
      rw [same] at newest
      omega
  have member := (inv.passed g).mpr handed
  have order := ordered.pipeline
  simp only [Loop.State.pipeline, history, List.append_assoc] at member order
  rcases List.mem_append.mp member with before | after
  · exact before
  · rw [List.singleton_append] at after order
    rcases List.mem_cons.mp after with rfl | later
    · omega
    · have reversed := List.rel_of_pairwise_cons (List.pairwise_append.mp order).2.1 later same.symm
      omega

/-- The messages on their way from the threads to the connection. -/
structure Carried (s : Shared ι) : Prop where
  inv : Loop.Inv s.loop
  ordered : Loop.Ordered s.loop
  output : Output s.session
  sent : s.session.sent = (s.log.map Prod.snd).flatten
  order : s.sends.Pairwise fun p q => Loop.InCallOrder p.1 q.1
  made : ∀ p ∈ s.sends, p.1.seq < s.loop.calls p.1.caller
  waiting : ∀ f call, s.bound f = some call → f.seq < s.loop.calls f.caller ∧ f ∉ s.loop.finished ∧
    ∀ message, (f, message) ∈ s.sends ↔ call = .send message
  settled : s.session.conn.state = .kConnected → ∀ p ∈ s.sends, s.bound p.1 = none → p ∈ s.brought
  logged : ∀ p ∈ s.brought, s.bound p.1 = none
  fifo : ∀ thread, s.delivered thread <+: s.captured thread

theorem Carried.initial (threadId : ι) (mapped : Bool) (name : List UInt8) (sockfd : Nat)
    (writeComplete highWater : Bool) (mark : Nat) :
    Carried (Shared.initial threadId mapped (.initial name sockfd writeComplete highWater mark)) where
  inv := .initial threadId mapped
  ordered := .initial threadId mapped
  output := .initial name sockfd writeComplete highWater mark
  sent := rfl
  order := .nil
  made _ member := by cases member
  waiting _ _ bound := by cases bound
  settled _ _ member := by cases member
  logged _ member := by cases member
  fifo _ := List.prefix_rfl

/-- The loop moves on; a functor only ends once its captured call is made. -/
theorem Carried.loop (carried : Carried s) (action : Loop.Action ι) {loop : Loop.State ι} (may : s.mayLoop action)
    (bounded : Loop.Bounded s.loop action) (kept : Loop.RouteKept s.loop action)
    (taken : Loop.step s.loop action = some loop) : Carried { s with loop := loop } := by
  obtain ⟨inv, effect⟩ := carried.inv.step bounded taken
  have calls := Loop.step_calls carried.inv taken
  exact {
    inv
    ordered := carried.ordered.effect carried.inv kept effect
    output := carried.output
    sent := carried.sent
    order := carried.order
    made := fun p member => Nat.lt_of_lt_of_le (carried.made p member) (calls p.1.caller)
    waiting := by
      intro f call bound
      obtain ⟨made, unfinished, sends⟩ := carried.waiting f call bound
      refine ⟨Nat.lt_of_lt_of_le made (calls f.caller), ?_, sends⟩
      rcases Loop.step_finished carried.inv taken with same | ⟨ends, g, current, finished⟩
      · dsimp only
        rw [same]
        exact unfinished
      · have done : s.request = none := by rcases ends with rfl | rfl <;> exact may
        rw [Shared.request, current, Option.bind_some] at done
        dsimp only
        rw [finished, List.mem_append, List.mem_singleton, not_or]
        refine ⟨unfinished, ?_⟩
        rintro rfl
        cases bound.symm.trans done
    settled := carried.settled
    logged := carried.logged
    fifo := carried.fifo }

theorem Carried.brought_sends (carried : Carried s) {p : Loop.Functor ι × List UInt8} (member : p ∈ s.brought) :
    p ∈ s.sends := by
  have own : p ∈ s.delivered p.1.caller := List.mem_filter.mpr ⟨member, by simp⟩
  exact List.mem_of_mem_filter ((carried.fifo p.1.caller).subset own)

theorem Carried.unique (carried : Carried s) {p q : Loop.Functor ι × List UInt8} (left : p ∈ s.sends)
    (right : q ∈ s.sends) (same : p.1 = q.1) : p = q := by
  have distinct : (s.sends.map Prod.fst).Nodup := by
    rw [List.Nodup, List.pairwise_map]
    apply carried.order.imp
    intro a b before equal
    have less := before (by rw [equal])
    rw [equal] at less
    exact Nat.lt_irrefl _ less
  exact List.inj_on_of_nodup_map distinct left right same

/-- The functor of the next call is new to the connection. -/
theorem Carried.fresh (carried : Carried s) (thread : ι) :
    s.bound ⟨thread, s.loop.calls thread⟩ = none ∧ ⟨thread, s.loop.calls thread⟩ ∉ s.loop.finished ∧
    ∀ p ∈ s.sends, p.1 ≠ ⟨thread, s.loop.calls thread⟩ := by
  refine ⟨?_, ?_, ?_⟩
  · by_contra bound
    obtain ⟨call, bound⟩ := Option.ne_none_iff_exists'.mp bound
    exact Nat.lt_irrefl _ (carried.waiting _ call bound).1
  · intro finished
    have listed : ⟨thread, s.loop.calls thread⟩ ∈ s.loop.pipeline := by
      simp [Loop.State.pipeline, carried.inv.history, finished]
    exact Nat.lt_irrefl _ ((carried.inv.passed _).mp listed).1
  · intro p member same
    have made := carried.made p member
    rw [same] at made
    exact Nat.lt_irrefl _ made

theorem Carried.queueInLoop (carried : Carried s) {thread : ι} {call : Bound} (may : s.mayCall thread)
    (taken : s.queueInLoop thread call = some t) : Carried t := by
  obtain ⟨loop, called, rfl⟩ := Option.map_eq_some_iff.mp taken
  have moved : Carried { s with loop := loop } := carried.loop (.call thread) may trivial trivial called
  obtain ⟨unbound, unfinished, unsent⟩ := carried.fresh thread
  cases Loop.step_called rfl called
  have among {p : Loop.Functor ι × List UInt8} (member : p ∈ call.message ⟨thread, s.loop.calls thread⟩) :
      p.1 = ⟨thread, s.loop.calls thread⟩ := by
    cases call <;> simp_all [Bound.message]
  have counted : s.loop.calls thread < Function.update s.loop.calls thread (s.loop.calls thread + 1) thread := by
    rw [Function.update_self]
    exact Nat.lt_succ_self _
  exact {
    inv := moved.inv
    ordered := moved.ordered
    output := carried.output
    sent := carried.sent
    order := by
      rw [List.pairwise_append]
      refine ⟨carried.order, ?_, ?_⟩
      · cases call <;> simp [Bound.message]
      · intro p member q last same
        rw [among last] at same ⊢
        have made := carried.made p member
        rw [same] at made
        exact made
    made := by
      intro p member
      rcases List.mem_append.mp member with before | last
      · exact moved.made p before
      · rw [among last]
        exact counted
    waiting := by
      intro f bound held
      dsimp only at held ⊢
      by_cases same : f = ⟨thread, s.loop.calls thread⟩
      · subst same
        rw [Function.update_self, Option.some.injEq] at held
        refine ⟨counted, unfinished, fun message => ?_⟩
        have new : (⟨thread, s.loop.calls thread⟩, message) ∉ s.sends := fun member => unsent _ member rfl
        rw [List.mem_append, or_iff_right new, ← held]
        cases call <;> simp [Bound.message, eq_comm]
      · rw [Function.update_of_ne same] at held
        obtain ⟨made, open_, sends⟩ := moved.waiting f bound held
        refine ⟨made, open_, fun message => ?_⟩
        rw [List.mem_append, or_iff_left fun last => same (among last)]
        exact sends message
    settled := by
      intro connected p member none
      dsimp only at none
      by_cases same : p.1 = ⟨thread, s.loop.calls thread⟩
      · rw [same, Function.update_self] at none
        cases none
      · rw [Function.update_of_ne same] at none
        rcases List.mem_append.mp member with before | last
        · exact carried.settled connected p before none
        · exact absurd (among last) same
    logged := by
      intro p member
      dsimp only
      rw [Function.update_of_ne (unsent p (carried.brought_sends member))]
      exact carried.logged p member
    fifo := by
      intro other
      apply (carried.fifo other).trans
      rw [Shared.captured, Shared.captured, List.filter_append]
      exact List.prefix_append _ _ }

/-- An operation of the connection that sends nothing. -/
theorem Carried.act (carried : Carried s) {action : Action} (silent : action.sends = false)
    (taken : s.act action = some t) : Carried t := by
  obtain ⟨session, stepped, rfl⟩ := Option.map_eq_some_iff.mp taken
  have admitted : Public s.session action := by
    cases action <;> first | exact trivial | cases silent
  exact { carried with
    output := carried.output.step admitted stepped
    sent := (sent_kept silent stepped).trans carried.sent
    settled := fun after => carried.settled (connected_before carried.output.inv stepped after) }

/-- The loop thread sends for itself. -/
theorem Carried.direct (carried : Carried s) {message : List UInt8} {result : WriteResult}
    (taken : s.deliver none message result = some t) : Carried t := by
  obtain ⟨session, stepped, result⟩ := deliver_eq taken
  have output : Output session := carried.output.step (show Public _ (.sendBuffer _ _) from trivial) stepped
  have before := connected_before carried.output.inv stepped
  split at result
  · obtain ⟨rfl, sent⟩ := result
    have same : ({ s with session := session, log := s.log ++ [(none, message)] } : Shared ι).brought = s.brought := by
      simp [Shared.brought]
    exact { carried with
      output
      sent := by
        rw [sent, carried.sent]
        simp
      settled := fun after p member free => by
        rw [same]
        exact carried.settled (before after) p member free
      logged := fun p member => carried.logged p (same ▸ member)
      fifo := fun thread => by
        rw [Shared.delivered, same]
        exact carried.fifo thread }
  · obtain ⟨rfl, sent⟩ := result
    exact { carried with
      output
      sent := sent.trans carried.sent
      settled := fun after => carried.settled (before after) }

/-- The message that is delivered next is the thread's first one that was not. -/
theorem Carried.next (carried : Carried s) {f : Loop.Functor ι} {message : List UInt8}
    (current : s.loop.phase.current = some f) (bound : s.bound f = some (.send message))
    (connected : s.session.conn.state = .kConnected) :
    s.delivered f.caller ++ [(f, message)] <+: s.captured f.caller := by
  obtain ⟨rest, split⟩ := carried.fifo f.caller
  have listed : (f, message) ∈ s.sends := ((carried.waiting f _ bound).2.2 message).mpr rfl
  have member : (f, message) ∈ s.delivered f.caller ++ rest := by
    rw [split]
    exact List.mem_filter.mpr ⟨listed, by simp⟩
  have order : (s.delivered f.caller ++ rest).Pairwise fun p q => Loop.InCallOrder p.1 q.1 := by
    rw [split]
    exact carried.order.filter _
  rcases List.mem_append.mp member with before | ahead
  · have made := carried.logged _ (List.mem_of_mem_filter before)
    cases bound.symm.trans made
  · rcases rest with _ | ⟨p, rest⟩
    · cases ahead
    · have own : p ∈ s.captured f.caller := by rw [← split]; simp
      obtain ⟨sent, caller⟩ := List.mem_filter.mp own
      have first : p = (f, message) := by
        by_contra other
        rcases List.mem_cons.mp ahead with same | later
        · exact other same.symm
        · have same : p.1.caller = f.caller := of_decide_eq_true caller
          have earlier : p.1.seq < f.seq :=
            List.rel_of_pairwise_cons (List.pairwise_append.mp order).2.1 later same
          have finished := earlier_finished carried.inv carried.ordered current same earlier
          -- its own call was made, so its message would be among those delivered
          cases waits : s.bound p.1 with
          | some call => exact (carried.waiting p.1 call waits).2.1 finished
          | none =>
            have delivered : p ∈ s.delivered f.caller :=
              List.mem_filter.mpr ⟨carried.settled connected p sent waits, caller⟩
            have twice := (List.pairwise_append.mp order).2.2 p delivered p List.mem_cons_self rfl
            exact Nat.lt_irrefl _ twice
      rw [← split, first]
      exact ⟨rest, by simp⟩

/-- A captured call is made: nothing else that was captured is lost with it. -/
theorem unbind_waiting (carried : Carried s) (f : Loop.Functor ι) : ∀ g call,
    Function.update s.bound f none g = some call → g.seq < s.loop.calls g.caller ∧ g ∉ s.loop.finished ∧
    ∀ message, (g, message) ∈ s.sends ↔ call = .send message := by
  intro g call held
  by_cases same : g = f
  · rw [same, Function.update_self] at held
    cases held
  · rw [Function.update_of_ne same] at held
    exact carried.waiting g call held

theorem unbind_none (s : Shared ι) (f : Loop.Functor ι) {g : Loop.Functor ι} (free : s.bound g = none) :
    Function.update s.bound f none g = none := by
  by_cases same : g = f
  · rw [same, Function.update_self]
  · rw [Function.update_of_ne same]
    exact free

/-- A queued functor sends what it captured. -/
theorem Carried.bring (carried : Carried s) {f : Loop.Functor ι} {message : List UInt8} {result : WriteResult}
    (current : s.loop.phase.current = some f) (bound : s.bound f = some (.send message))
    (taken : { s with bound := Function.update s.bound f none }.deliver (some f) message result = some t) :
    Carried t := by
  obtain ⟨session, stepped, result⟩ := deliver_eq taken
  dsimp only at stepped result
  have output : Output session := carried.output.step (show Public _ (.sendBuffer _ _) from trivial) stepped
  have before := connected_before carried.output.inv stepped
  have listed : (f, message) ∈ s.sends := ((carried.waiting f _ bound).2.2 message).mpr rfl
  split at result
  · rename_i connected
    obtain ⟨rfl, sent⟩ := result
    have more : ({ s with
        bound := Function.update s.bound f none, session := session
        log := s.log ++ [(some f, message)] } : Shared ι).brought = s.brought ++ [(f, message)] := by
      simp [Shared.brought]
    exact { carried with
      output
      waiting := unbind_waiting carried f
      sent := by
        rw [sent, carried.sent]
        simp
      settled := by
        intro _ p member none
        rw [more, List.mem_append, List.mem_singleton]
        by_cases same : p.1 = f
        · exact .inr (carried.unique member listed same)
        · dsimp only at none
          rw [Function.update_of_ne same] at none
          exact .inl (carried.settled connected p member none)
      logged := by
        intro p member
        rw [more, List.mem_append, List.mem_singleton] at member
        rcases member with earlier | rfl
        · exact unbind_none s f (carried.logged p earlier)
        · exact Function.update_self _ _ _
      fifo := by
        intro thread
        rw [Shared.delivered, more, List.filter_append]
        by_cases own : f.caller = thread
        · subst own
          rw [List.filter_singleton, decide_eq_true rfl]
          exact carried.next current bound connected
        · rw [List.filter_singleton, decide_eq_false own]
          exact (List.append_nil _).symm ▸ carried.fifo thread }
  · rename_i unconnected
    obtain ⟨rfl, sent⟩ := result
    exact { carried with
      output
      waiting := unbind_waiting carried f
      sent := sent.trans carried.sent
      settled := fun after => absurd (before after) unconnected
      logged := fun p member => unbind_none s f (carried.logged p member) }

theorem Carried.unbind (carried : Carried s) {f : Loop.Functor ι} (bound : s.bound f = some .shutdown) :
    Carried { s with bound := Function.update s.bound f none } := by
  exact { carried with
    waiting := unbind_waiting carried f
    settled := by
      intro connected p member none
      by_cases same : p.1 = f
      · have sends := ((carried.waiting f _ bound).2.2 p.2).mp (same ▸ member)
        cases sends
      · dsimp only at none
        rw [Function.update_of_ne same] at none
        exact carried.settled connected p member none
    logged := fun p member => unbind_none s f (carried.logged p member) }

theorem Carried.execute (carried : Carried s) {result : WriteResult} (taken : s.execute result = some t) :
    Carried t := by
  obtain ⟨f, current, made⟩ := Option.bind_eq_some_iff.mp taken
  cases bound : s.bound f with
  | none =>
    simp only [bound] at made
    cases made
  | some call =>
    cases call with
    | send message =>
      simp only [bound] at made
      exact carried.bring current bound made
    | shutdown =>
      simp only [bound] at made
      exact (carried.unbind bound).act rfl made

theorem Carried.sendBuffer (carried : Carried s) {thread : ι} {data : List UInt8} {result : WriteResult}
    (may : s.mayCall thread) (taken : s.sendBuffer thread data result = some t) : Carried t := by
  unfold Shared.sendBuffer at taken
  split at taken
  · exact carried.direct taken
  · split at taken
    · exact carried.queueInLoop may taken
    · cases taken
      exact carried

theorem Carried.step (carried : Carried s) {call : Call ι} (routed : s.Routed call) (taken : s.step call = some t) :
    Carried t := by
  cases call <;> simp only [Shared.step, Option.ite_none_right_eq_some] at taken <;> obtain ⟨may, taken⟩ := taken
  case loop action =>
    obtain ⟨loop, moved, rfl⟩ := Option.map_eq_some_iff.mp taken
    exact carried.loop action may routed.1 routed.2 moved
  case send thread data result =>
    unfold Shared.send at taken
    split at taken
    · cases taken
      exact carried
    · exact carried.sendBuffer may taken
  case sendBuffer thread data result => exact carried.sendBuffer may taken
  case shutdown thread =>
    unfold Shared.shutdown at taken
    split at taken
    · exact carried.act rfl taken
    · split at taken
      · exact carried.queueInLoop may taken
      · cases taken
        exact carried
  case execute result => exact carried.execute taken
  case event action =>
    refine carried.act ?_ taken
    cases action <;> first | rfl | cases may.1

variable {threadId : ι} {mapped : Bool} {name : List UInt8} {sockfd : Nat} {writeComplete highWater : Bool} {mark : Nat}

/-- Two threads send through the ring; the loop thread sends in the first of the two functors, when the socket has
    accepted one byte. -/
def crossing : List (Call (Fin 3)) :=
  let queueing (thread : Fin 3) := ((Loop.publishing thread).drop 1).map Call.loop
  [.loop .enter, .send 1 [1, 2] (.wrote 0)] ++ queueing 1 ++ [.send 2 [3] (.wrote 0)] ++ queueing 2 ++
    [.loop (.poll [.wakeup]), .loop .dispatch, .loop .drain] ++ Loop.fetching.map Call.loop ++
    [.execute (.wrote 1), .send 0 [9] (.wrote 0)] ++ Loop.consuming.map Call.loop ++ Loop.fetching.map Call.loop ++
    [.execute (.wrote 0)] ++ Loop.consuming.map Call.loop

end Order

end Hvnetpp.Tcp
