import Mathlib.Data.List.ReduceOption
import Hvnetpp.Loop.Model

namespace Hvnetpp.Loop

/-- What an execution of a functor does to the state of the user's code, and the functors it queues. -/
abbrev Body (σ F : Type) := σ → F → σ × List F

/-- The pending functors as the loop thread finds them while no other thread runs. `ring` has the
    `functorPtr` of each node that is not consumed; there is none without a mapping. `executed` is history. -/
structure Pending (σ F : Type) where
  ring : Option (List (Option F))
  capacity : Nat
  pendingFunctors : List F
  callingPendingFunctors : Bool
  wakeupFd : Nat
  user : σ
  executed : List F
  deriving DecidableEq, Repr

namespace Pending

variable {σ F : Type}

/-- `queueInLoop` up to the wakeup. -/
def enqueue (p : Pending σ F) (cb : F) : Pending σ F :=
  match p.ring with
  | some nodes =>
    if nodes.length < p.capacity then { p with ring := some (nodes ++ [some cb]) }
    else { p with pendingFunctors := p.pendingFunctors ++ [cb] }
  | none => { p with pendingFunctors := p.pendingFunctors ++ [cb] }

def queueInLoop (p : Pending σ F) (cb : F) : Pending σ F :=
  if p.callingPendingFunctors then { p.enqueue cb with wakeupFd := signal p.wakeupFd } else p.enqueue cb

variable (body : Body σ F)

/-- A functor runs, with its calls of `queueInLoop`. -/
def execute (p : Pending σ F) (functor : F) : Pending σ F :=
  (body p.user functor).2.foldl queueInLoop
    { p with user := (body p.user functor).1, executed := p.executed ++ [functor] }

def consume (p : Pending σ F) : Pending σ F := { p with ring := p.ring.map List.tail }

/-- The `while (true)` of `doPendingFunctors`. The node is consumed after its functor has run. -/
def drain : Nat → Pending σ F → Option (Pending σ F)
  | 0, _ => none
  | fuel + 1, p =>
    match p.ring with
    | some (some functor :: _) => drain fuel (p.execute body functor).consume
    | some (none :: _) => drain fuel p.consume
    | some [] => some p
    | none => some p

def doPendingFunctors (fuel : Nat) (p : Pending σ F) : Option (Pending σ F) :=
  (drain body fuel { p with callingPendingFunctors := true }).map fun p =>
    { p.pendingFunctors.foldl (execute body) { p with pendingFunctors := [] } with callingPendingFunctors := false }

/-- The functors that are queued, in the order in which `doPendingFunctors` comes to them. -/
def waiting (p : Pending σ F) : List F := (p.ring.getD []).reduceOption ++ p.pendingFunctors

/-- What the functors queue if they run one after another. -/
def spawned (body : Body σ F) : σ → List F → List F
  | _, [] => []
  | user, functor :: rest => (body user functor).2 ++ spawned body (body user functor).1 rest

def userAfter (body : Body σ F) : σ → List F → σ
  | user, [] => user
  | user, functor :: rest => userAfter body (body user functor).1 rest

/-- Nothing is in `pendingFunctors_` while there is room in the ring. -/
def Packed (p : Pending σ F) : Prop :=
  p.pendingFunctors = [] ∨ ∀ nodes ∈ p.ring, p.capacity ≤ nodes.length

variable {body} {p q r : Pending σ F}

theorem signal_pos (counter : Nat) : 0 < signal counter := by
  unfold signal
  split <;> omega

theorem Packed.enqueue (packed : Packed p) (cb : F) :
    Packed (p.enqueue cb) ∧ (p.enqueue cb).waiting = p.waiting ++ [cb] := by
  unfold Pending.enqueue
  cases present : p.ring with
  | none =>
    refine ⟨.inr ?_, ?_⟩
    · intro nodes other
      cases other
    · simp only [waiting, present, List.append_assoc]
  | some nodes =>
    by_cases room : nodes.length < p.capacity
    · have none : p.pendingFunctors = [] := by
        cases packed with
        | inl none => exact none
        | inr full =>
          have beyond := full nodes present
          omega
      simp only [if_pos room]
      refine ⟨.inl none, ?_⟩
      simp only [waiting, present, none, Option.getD_some, List.append_nil, List.reduceOption_append]
      rfl
    · simp only [if_neg room]
      refine ⟨.inr ?_, ?_⟩
      · intro others same
        cases same
        exact Nat.le_of_not_lt room
      · simp only [waiting, present, List.append_assoc]

theorem queueInLoop_ring (calling : p.callingPendingFunctors = true) {nodes : List (Option F)}
    (present : p.ring = some nodes) (room : nodes.length < p.capacity) (cb : F) :
    p.queueInLoop cb = { p with ring := some (nodes ++ [some cb]), wakeupFd := signal p.wakeupFd } := by
  rw [queueInLoop, if_pos calling]
  simp only [enqueue, present, if_pos room]

theorem queueInLoop_vector (calling : p.callingPendingFunctors = true)
    (full : ∀ nodes ∈ p.ring, ¬ nodes.length < p.capacity) (cb : F) :
    p.queueInLoop cb =
      { p with pendingFunctors := p.pendingFunctors ++ [cb], wakeupFd := signal p.wakeupFd } := by
  rw [queueInLoop, if_pos calling]
  cases present : p.ring with
  | none => simp only [enqueue, present]
  | some nodes => simp only [enqueue, present, if_neg (full nodes present)]

/-- Between the two, `queued` functors were queued, behind what was there. -/
structure Grows (p q : Pending σ F) (queued : Nat) : Prop where
  places : ∃ nodes functors : List F, nodes.length + functors.length = queued ∧
    q.ring = p.ring.map (· ++ nodes.map some) ∧ q.pendingFunctors = p.pendingFunctors ++ functors
  calling : q.callingPendingFunctors = p.callingPendingFunctors
  user : q.user = p.user
  executed : q.executed = p.executed

theorem Grows.enqueue (p : Pending σ F) (cb : F) : Grows p (p.enqueue cb) 1 := by
  unfold Pending.enqueue
  cases present : p.ring with
  | none => exact ⟨⟨[], [cb], rfl, by rw [present]; rfl, rfl⟩, rfl, rfl, rfl⟩
  | some nodes =>
    by_cases room : nodes.length < p.capacity
    · simp only [if_pos room]
      exact ⟨⟨[cb], [], rfl, by rw [present]; rfl, (List.append_nil _).symm⟩, rfl, rfl, rfl⟩
    · simp only [if_neg room]
      refine ⟨⟨[], [cb], rfl, ?_, rfl⟩, rfl, rfl, rfl⟩
      simp only [present, Option.map_some, List.map_nil, List.append_nil]

theorem Grows.queueInLoop (p : Pending σ F) (cb : F) : Grows p (p.queueInLoop cb) 1 := by
  have grows := Grows.enqueue p cb
  unfold Pending.queueInLoop
  split
  · exact ⟨grows.places, grows.calling, grows.user, grows.executed⟩
  · exact grows

theorem Grows.queueAll (p : Pending σ F) (functors : List F) :
    Grows p (functors.foldl Pending.queueInLoop p) functors.length := by
  induction functors generalizing p with
  | nil =>
    refine ⟨⟨[], [], rfl, ?_, (List.append_nil _).symm⟩, rfl, rfl, rfl⟩
    cases present : p.ring with
    | none => exact present
    | some nodes => simp only [List.foldl_nil, present, Option.map_some, List.map_nil, List.append_nil]
  | cons cb rest induction =>
    obtain ⟨⟨first, second, one, ring, vector⟩, calling, user, executed⟩ := Grows.queueInLoop p cb
    obtain ⟨⟨third, fourth, many, rings, vectors⟩, callings, users, executions⟩ := induction (p.queueInLoop cb)
    refine ⟨⟨first ++ third, second ++ fourth, ?_, ?_, ?_⟩, callings.trans calling, users.trans user,
      executions.trans executed⟩
    · simp only [List.length_append, List.length_cons]
      omega
    · rw [List.foldl_cons, rings, ring, Option.map_map]
      congr 1
      funext nodes
      simp only [Function.comp_apply, List.append_assoc, List.map_append]
    · rw [List.foldl_cons, vectors, vector, List.append_assoc]

theorem Grows.execute (p : Pending σ F) (functor : F) :
    Grows { p with user := (body p.user functor).1, executed := p.executed ++ [functor] } (p.execute body functor)
      (body p.user functor).2.length :=
  Grows.queueAll _ _

theorem execute_user (p : Pending σ F) (functor : F) : (p.execute body functor).user = (body p.user functor).1 :=
  (Grows.execute p functor).user

theorem execute_executed (p : Pending σ F) (functor : F) :
    (p.execute body functor).executed = p.executed ++ [functor] :=
  (Grows.execute p functor).executed

/-- While the loop thread is in `doPendingFunctors` and the ring is drained, `done` were executed and `queued`
    were queued. -/
structure Serves (p : Pending σ F) (done queued : List F) (user : σ) (r : Pending σ F) : Prop where
  packed : Packed r
  calling : r.callingPendingFunctors = true
  waiting : r.waiting = p.waiting ++ queued
  executed : r.executed = p.executed ++ done
  user : r.user = user
  woken : queued ≠ [] ∨ 0 < p.wakeupFd → 0 < r.wakeupFd

theorem Serves.trans {first second third fourth : List F} {user later : σ} (left : Serves p first second user q)
    (right : Serves q third fourth later r) : Serves p (first ++ third) (second ++ fourth) later r where
  packed := right.packed
  calling := right.calling
  waiting := by rw [right.waiting, left.waiting, List.append_assoc]
  executed := by rw [right.executed, left.executed, List.append_assoc]
  user := right.user
  woken := by
    intro some
    apply right.woken
    by_cases none : fourth = []
    · refine .inr (left.woken ?_)
      rw [none, List.append_nil] at some
      exact some
    · exact .inl none

theorem Serves.queueInLoop (packed : Packed p) (calling : p.callingPendingFunctors = true) (cb : F) :
    Serves p [] [cb] p.user (p.queueInLoop cb) := by
  have grows := Grows.enqueue p cb
  unfold Pending.queueInLoop
  rw [if_pos calling]
  refine ⟨(packed.enqueue cb).1, grows.calling.trans calling, (packed.enqueue cb).2, ?_, grows.user, ?_⟩
  · exact grows.executed.trans (List.append_nil _).symm
  · intro _
    exact signal_pos _

theorem Serves.refl (packed : Packed p) (calling : p.callingPendingFunctors = true) : Serves p [] [] p.user p where
  packed := packed
  calling := calling
  waiting := (List.append_nil _).symm
  executed := (List.append_nil _).symm
  user := rfl
  woken := by
    intro some
    cases some with
    | inl other => exact absurd rfl other
    | inr positive => exact positive

theorem Serves.queueAll (packed : Packed p) (calling : p.callingPendingFunctors = true) (functors : List F) :
    Serves p [] functors p.user (functors.foldl Pending.queueInLoop p) := by
  induction functors generalizing p with
  | nil => exact Serves.refl packed calling
  | cons cb rest induction =>
    have first := Serves.queueInLoop packed calling cb
    have others := first.trans (induction first.packed first.calling)
    rw [first.user] at others
    exact others

theorem Serves.execute (packed : Packed p) (calling : p.callingPendingFunctors = true) (functor : F) :
    Serves p [functor] (body p.user functor).2 (body p.user functor).1 (p.execute body functor) := by
  have begun : Packed { p with user := (body p.user functor).1, executed := p.executed ++ [functor] } := packed
  have queued := Serves.queueAll begun calling (body p.user functor).2
  exact ⟨queued.packed, queued.calling, queued.waiting, queued.executed.trans (List.append_nil _), queued.user,
    queued.woken⟩

/-- The range-for over the swapped-out vector. -/
theorem Serves.serve (packed : Packed p) (calling : p.callingPendingFunctors = true) (functors : List F) :
    Serves p functors (spawned body p.user functors) (userAfter body p.user functors)
      (functors.foldl (Pending.execute body) p) := by
  induction functors generalizing p with
  | nil => exact Serves.refl packed calling
  | cons functor rest induction =>
    have first : Serves p _ _ _ (p.execute body functor) := Serves.execute packed calling functor
    have others := first.trans (induction first.packed first.calling)
    rw [first.user] at others
    exact others

variable (body) in
/-- No functor of the ring queues another one when it runs. -/
def Quiet : σ → List (Option F) → Prop
  | _, [] => True
  | user, none :: rest => Quiet user rest
  | user, some functor :: rest => (body user functor).2 = [] ∧ Quiet (body user functor).1 rest

theorem Quiet.spawned {user : σ} {nodes : List (Option F)} (quiet : Quiet body user nodes) (rest : List F) :
    spawned body user (nodes.reduceOption ++ rest) = spawned body (userAfter body user nodes.reduceOption) rest := by
  induction nodes generalizing user with
  | nil => rfl
  | cons node others induction =>
    cases node with
    | none => exact induction quiet
    | some functor =>
      show (body user functor).2 ++ _ = _
      rw [quiet.1]
      exact induction quiet.2

/-- With such a ring the loop goes once through the nodes it found. -/
theorem drain_quiet {nodes : List (Option F)} (present : p.ring = some nodes) (quiet : Quiet body p.user nodes)
    {fuel : Nat} (enough : nodes.length < fuel) :
    drain body fuel p = some { p with
      ring := some []
      user := userAfter body p.user nodes.reduceOption
      executed := p.executed ++ nodes.reduceOption } := by
  induction nodes generalizing p fuel with
  | nil =>
    obtain ⟨fuel, rfl⟩ : ∃ less, fuel = less + 1 := ⟨fuel - 1, by omega⟩
    simp only [drain, present, List.reduceOption_nil, List.append_nil, userAfter]
    rw [← present]
  | cons node others induction =>
    obtain ⟨fuel, rfl⟩ : ∃ less, fuel = less + 1 := ⟨fuel - 1, by omega⟩
    have less : others.length < fuel := by
      simp only [List.length_cons] at enough
      omega
    cases node with
    | none =>
      have consumed : p.consume.ring = some others := by rw [consume, present]; rfl
      simp only [drain, present]
      rw [induction consumed quiet less]
      rfl
    | some functor =>
      have ran : (p.execute body functor).consume =
          { p with
            ring := some others
            user := (body p.user functor).1
            executed := p.executed ++ [functor] } := by
        rw [execute, quiet.1, List.foldl_nil, consume, present]
        rfl
      simp only [drain, present]
      rw [ran, induction rfl quiet.2 less, List.reduceOption_cons_of_some]
      simp only [List.append_assoc, List.singleton_append, userAfter]

variable (body) in
/-- What the loop over such a ring leaves. -/
def drained (p : Pending σ F) : Pending σ F :=
  { p with
    ring := p.ring.map fun _ => []
    callingPendingFunctors := true
    user := userAfter body p.user (p.ring.getD []).reduceOption
    executed := p.executed ++ (p.ring.getD []).reduceOption }

theorem drain_eq_drained (quiet : ∀ nodes ∈ p.ring, Quiet body p.user nodes) {fuel : Nat}
    (enough : (p.ring.getD []).length < fuel) :
    drain body fuel { p with callingPendingFunctors := true } = some (p.drained body) := by
  cases present : p.ring with
  | none =>
    obtain ⟨fuel, rfl⟩ : ∃ less, fuel = less + 1 := ⟨fuel - 1, by omega⟩
    simp only [drain, drained, present, Option.map_none, Option.getD_none, List.reduceOption_nil, List.append_nil,
      userAfter]
  | some nodes =>
    rw [present] at enough
    have through := drain_quiet (p := { p with callingPendingFunctors := true }) present (quiet nodes present) enough
    rw [← present, through, drained, present]
    rfl

theorem drained_waiting (p : Pending σ F) : waiting { p.drained body with pendingFunctors := [] } = [] := by
  show ((p.ring.map fun _ => []).getD []).reduceOption ++ [] = []
  cases p.ring <;> rfl

/-- The functors of the ring add nothing to what is queued. -/
theorem spawned_waiting (quiet : ∀ nodes ∈ p.ring, Quiet body p.user nodes) :
    spawned body p.user p.waiting = spawned body (p.drained body).user p.pendingFunctors := by
  simp only [waiting, drained]
  cases present : p.ring with
  | none => rfl
  | some nodes => exact (quiet nodes present).spawned p.pendingFunctors

theorem doPendingFunctors_quiet (quiet : ∀ nodes ∈ p.ring, Quiet body p.user nodes) :
    ∃ after : Pending σ F,
      (∀ fuel, (p.ring.getD []).length < fuel → doPendingFunctors body fuel p = some after) ∧
      after.executed = p.executed ++ p.waiting ∧ after.waiting = spawned body p.user p.waiting ∧
      (after.waiting ≠ [] → 0 < after.wakeupFd) := by
  have packed : Packed { p.drained body with pendingFunctors := [] } := .inl rfl
  have serves : Serves { p.drained body with pendingFunctors := [] } p.pendingFunctors
      (spawned body (p.drained body).user p.pendingFunctors) _ _ := Serves.serve packed rfl p.pendingFunctors
  have waiting := serves.waiting
  rw [drained_waiting, List.nil_append] at waiting
  refine ⟨{ p.pendingFunctors.foldl (execute body) { p.drained body with pendingFunctors := [] } with
    callingPendingFunctors := false }, ?_, ?_, ?_, ?_⟩
  · intro fuel enough
    rw [doPendingFunctors, drain_eq_drained quiet enough]
    rfl
  · rw [Pending.waiting, ← List.append_assoc]
    exact serves.executed
  · rw [spawned_waiting quiet]
    exact waiting
  · intro some
    apply serves.woken
    rw [← waiting]
    exact .inl some

/-- How many functors have been executed or are queued. -/
def total (p : Pending σ F) : Nat := p.executed.length + p.waiting.length

/-- One iteration: what the functor queues is added to the total. -/
theorem execute_total {functor : F} {rest : List (Option F)} (present : p.ring = some (some functor :: rest)) :
    (p.execute body functor).consume.total = p.total + (body p.user functor).2.length := by
  have grows : Grows _ (p.execute body functor) _ := Grows.execute p functor
  obtain ⟨nodes, functors, sum, ring, vector⟩ := grows.places
  have flat : (nodes.map some).reduceOption = nodes := by simp [List.reduceOption]
  have waiting : (p.execute body functor).consume.waiting =
      rest.reduceOption ++ nodes ++ (p.pendingFunctors ++ functors) := by
    show ((Option.map List.tail (p.execute body functor).ring).getD []).reduceOption ++ _ = _
    rw [ring, present, ← vector]
    simp only [Option.map_some, List.cons_append, List.tail_cons, Option.getD_some, List.reduceOption_append, flat]
    rfl
  have before : p.waiting = functor :: rest.reduceOption ++ p.pendingFunctors := by
    rw [Pending.waiting, present, Option.getD_some, List.reduceOption_cons_of_some]
  have done : (p.execute body functor).consume.executed = p.executed ++ [functor] := execute_executed p functor
  simp only [total, waiting, before, done, List.length_append, List.length_cons, List.length_nil]
  omega

/-- The loop loses nothing, and ends with an empty ring; if it adds nothing either, no functor of the ring has
    queued one. -/
theorem drain_total {fuel : Nat} (ran : drain body fuel p = some q) :
    p.total ≤ q.total ∧ q.ring.getD [] = [] ∧
    (q.total = p.total → ∀ nodes ∈ p.ring, Quiet body p.user nodes) := by
  induction fuel generalizing p with
  | zero => cases ran
  | succ fuel induction =>
    cases present : p.ring with
    | none =>
      simp only [drain, present, Option.some.injEq] at ran
      subst ran
      refine ⟨Nat.le_refl _, by rw [present]; rfl, ?_⟩
      intro _ nodes none
      cases none
    | some nodes =>
      cases nodes with
      | nil =>
        simp only [drain, present, Option.some.injEq] at ran
        subst ran
        refine ⟨Nat.le_refl _, by rw [present]; rfl, ?_⟩
        intro _ nodes same
        cases same
        trivial
      | cons node rest =>
        cases node with
        | none =>
          simp only [drain, present] at ran
          have same : p.consume.total = p.total := by
            simp only [total, waiting, consume, present, Option.map_some, Option.getD_some, List.tail_cons,
              List.reduceOption_cons_of_none]
          obtain ⟨more, empty, quiet⟩ := induction ran
          rw [same] at more quiet
          refine ⟨more, empty, ?_⟩
          intro equal nodes is
          cases is
          exact quiet equal rest (by rw [consume, present]; rfl)
        | some functor =>
          simp only [drain, present] at ran
          have added : (p.execute body functor).consume.total = _ := execute_total present
          obtain ⟨more, empty, quiet⟩ := induction ran
          refine ⟨by omega, empty, ?_⟩
          intro equal nodes is
          cases is
          have none : (body p.user functor).2 = [] := List.length_eq_zero_iff.mp (by omega)
          have next : (p.execute body functor).consume.ring = some rest := by
            rw [execute, none, List.foldl_nil, consume, present]
            rfl
          have user : (p.execute body functor).consume.user = (body p.user functor).1 := execute_user p functor
          have others := quiet (by omega) rest next
          rw [user] at others
          exact ⟨none, others⟩

theorem serve_executed (p : Pending σ F) (functors : List F) :
    (functors.foldl (execute body) p).executed = p.executed ++ functors := by
  induction functors generalizing p with
  | nil => exact (List.append_nil _).symm
  | cons functor rest induction =>
    rw [List.foldl_cons, induction, execute_executed, List.append_assoc, List.singleton_append]

/-- A call that executes only what was queued before it has found no functor in the ring that queues another. -/
theorem quiet_of_executed {fuel : Nat} {after : Pending σ F} (ran : doPendingFunctors body fuel p = some after)
    (executed : after.executed = p.executed ++ p.waiting) : ∀ nodes ∈ p.ring, Quiet body p.user nodes := by
  obtain ⟨drained, loop, result⟩ := Option.map_eq_some_iff.mp ran
  obtain ⟨_, empty, quiet⟩ := drain_total loop
  apply quiet
  have all : after.executed = drained.executed ++ drained.pendingFunctors := by
    rw [← result]
    exact serve_executed _ _
  have waiting : drained.waiting = drained.pendingFunctors := by
    rw [Pending.waiting, empty]
    rfl
  calc drained.total = (drained.executed ++ drained.pendingFunctors).length := by
        rw [total, waiting, List.length_append]
    _ = (p.executed ++ p.waiting).length := by rw [← all, executed]
    _ = p.total := List.length_append

/-- One call executes what was queued before it, leaves what is queued meanwhile with a wakeup pending, and
    returns, exactly if no functor of the ring queues another one. -/
theorem doPendingFunctors_bounded :
    (∃ after : Pending σ F, (∃ enough, ∀ fuel, enough ≤ fuel → doPendingFunctors body fuel p = some after) ∧
      after.executed = p.executed ++ p.waiting ∧ after.waiting = spawned body p.user p.waiting ∧
      (after.waiting ≠ [] → 0 < after.wakeupFd)) ↔
    ∀ nodes ∈ p.ring, Quiet body p.user nodes := by
  constructor
  · intro bounded
    obtain ⟨after, ⟨enough, returns⟩, executed, _⟩ := bounded
    exact quiet_of_executed (returns enough (Nat.le_refl _)) executed
  · intro quiet
    obtain ⟨after, returns, executed, waiting, woken⟩ := doPendingFunctors_quiet quiet
    exact ⟨after, ⟨(p.ring.getD []).length + 1, fun fuel enough => returns fuel enough⟩, executed, waiting, woken⟩

/-- A functor that queues itself again in a ring with room is taken again, and again. -/
theorem drain_requeued {functor : F} (again : ∀ user, (body user functor).2 = [functor]) (room : 1 < p.capacity)
    (calling : p.callingPendingFunctors = true) (alone : p.ring = some [some functor]) (fuel : Nat) :
    drain body fuel p = none := by
  induction fuel generalizing p with
  | zero => rfl
  | succ fuel induction =>
    have ran : (p.execute body functor).consume =
        { p with
          user := (body p.user functor).1
          executed := p.executed ++ [functor]
          wakeupFd := signal p.wakeupFd } := by
      simp [execute, again, queueInLoop, enqueue, calling, alone, room, consume]
    simp only [drain, alone]
    rw [ran]
    exact induction room calling alone

/-- 0 queues itself, 1 queues 2, and 2 queues nothing. -/
def requeueing : Body Unit Nat
  | _, 0 => ((), [0])
  | _, 1 => ((), [2])
  | _, _ => ((), [])

def queuedInRing (functors : List Nat) : Pending Unit Nat :=
  { ring := some (functors.map some), capacity := 1024, pendingFunctors := [], callingPendingFunctors := false,
    wakeupFd := 0, user := (), executed := [] }

/-- The functor that 1 queues is executed by the same call, and a call that finds 0 does not return. -/
theorem requeued_in_same_call :
    (doPendingFunctors requeueing 3 (queuedInRing [1])).map (fun after => (after.executed, after.waiting)) =
      some ([1, 2], []) ∧
    ∀ fuel, doPendingFunctors requeueing fuel (queuedInRing [0]) = none := by
  refine ⟨by decide, ?_⟩
  intro fuel
  rw [doPendingFunctors, drain_requeued (fun _ => rfl) (by decide) rfl rfl]
  rfl

end Pending

end Hvnetpp.Loop
