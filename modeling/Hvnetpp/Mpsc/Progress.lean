import Hvnetpp.Mpsc.Access

namespace Hvnetpp.Mpsc

open Machine

variable {ι α : Type} [DecidableEq ι] [Inhabited α] {q r : State ι α} {p : ι}

/-- What one step does to the reservations and to what is consumed of them. -/
inductive Logged (q r : State ι α) : Prop where
  | same (cells : r.cells = q.cells) (consumed : r.consumed = q.consumed)
  | reserved (cell : Cell ι α) (cells : r.cells = q.cells ++ [cell]) (consumed : r.consumed = q.consumed)
  | progressed (i : Nat) (cell : Cell ι α) (change : Stage α → Stage α) (present : q.cells[i]? = some cell)
      (forward : ¬ cell.stage.Open → ¬ (change cell.stage).Open)
      (cells : r.cells = q.cells.modify i (Cell.progress change)) (consumed : r.consumed = q.consumed)
  | advanced (payload : α) (cells : r.cells = q.cells) (consumed : r.consumed = q.consumed ++ [payload])

theorem Inv.logged_reserve (inv : Inv q) (action : Action ι α) (own : action.reserves p)
    (taken : Mpsc.step q action = some r) : Logged q r := by
  rcases reserve_cases inv own taken with quiet | ⟨h, node, _, _, rfl⟩
  · exact .same quiet.cells quiet.consumed
  · exact .reserved _ rfl rfl

theorem Inv.logged (inv : Inv q) {action : Action ι α} (taken : Mpsc.step q action = some r) : Logged q r := by
  have looks (place : action = .peekHead ∨ action = .peekTail ∨ action = .peekNode ∨ action = .peekId) :
      Logged q r := by
    obtain ⟨place, rfl, _⟩ := peek_cases inv place taken
    exact .same rfl rfl
  cases step_moves taken with
  | @loadHead p => exact inv.logged_reserve (.loadHead p) (p := p) rfl taken
  | @loadTail p => exact inv.logged_reserve (.loadTail p) (p := p) rfl taken
  | @compareExchange p _ _ spurious => exact inv.logged_reserve (.compareExchange p spurious) (p := p) rfl taken
  | giveUp => exact .same rfl rfl
  | @store p _ _ place =>
    have stands := inv.producers p
    rw [place] at stands
    exact .progressed _ _ _ stands (fun closed => absurd trivial closed) rfl rfl
  | @commit p _ _ place =>
    have stands := inv.producers p
    rw [place] at stands
    obtain ⟨payload, present⟩ := stands
    exact .progressed _ _ _ present (fun closed => absurd trivial closed) rfl rfl
  | peekHead => exact looks (.inl rfl)
  | peekTail => exact looks (.inr (.inl rfl))
  | peekNode => exact looks (.inr (.inr (.inl rfl)))
  | peekId => exact looks (.inr (.inr (.inr rfl)))
  | read => exact .same rfl rfl
  | clear place =>
    have stands := inv.consumer
    rw [place] at stands
    obtain ⟨owner, id, present⟩ := stands
    exact .progressed _ _ Stage.retire present (fun _ opened => opened) rfl rfl
  | advance => exact .advanced _ rfl rfl

/-- The first `n` reservations are committed. -/
def Settled (n : Nat) (q : State ι α) : Prop :=
  ∀ i < n, ∃ cell, q.cells[i]? = some cell ∧ ¬ cell.stage.Open

omit [DecidableEq ι] [Inhabited α] in
theorem Settled.logged {n : Nat} (settled : Settled n q) (logged : Logged q r) : Settled n r := by
  intro i less
  obtain ⟨cell, present, closed⟩ := settled i less
  cases logged with
  | same cells _ => exact ⟨cell, cells ▸ present, closed⟩
  | advanced _ cells _ => exact ⟨cell, cells ▸ present, closed⟩
  | reserved new cells _ =>
    have inside := (List.getElem?_eq_some_iff.mp present).1
    refine ⟨cell, ?_, closed⟩
    rw [cells, List.getElem?_append_left inside]
    exact present
  | progressed j other change there forward cells _ =>
    by_cases same : i = j
    · subst same
      rw [present] at there
      cases there
      refine ⟨cell.progress change, ?_, forward closed⟩
      rw [cells, List.getElem?_modify_eq, present]
      rfl
    · refine ⟨cell, ?_, closed⟩
      rw [cells, List.getElem?_modify_ne _ _ (Ne.symm same)]
      exact present

omit [DecidableEq ι] [Inhabited α] in
/-- Where `peek` finds nothing, it has come past them. -/
theorem Settled.passed {n : Nat} (settled : Settled n q)
    (nothing : q.popped = q.cells.length ∨ ∃ cell, q.cells[q.popped]? = some cell ∧ cell.stage.Open) :
    n ≤ q.popped := by
  by_contra before
  obtain ⟨cell, present, closed⟩ := settled q.popped (by omega)
  rcases nothing with empty | ⟨other, there, opened⟩
  · have inside := (List.getElem?_eq_some_iff.mp present).1
    omega
  · rw [present] at there
    cases there
    exact closed opened

/-- The queue with two counts for each producer: the reservations there were when it last loaded `tail`, and its
    exchanges that failed because `tail` had moved. -/
structure Contest (ι α : Type) where
  queue : State ι α
  loaded : ι → Nat
  failures : ι → Nat

def Contest.initial (ι α : Type) [Inhabited α] (order : Nat) : Contest ι α :=
  { queue := .initial ι α order true, loaded := fun _ => 0, failures := fun _ => 0 }

def Contest.loadedAfter (c : Contest ι α) : Action ι α → ι → Nat
  | .loadTail p => Function.update c.loaded p c.queue.cells.length
  | _ => c.loaded

def Contest.failuresAfter (c : Contest ι α) : Action ι α → ι → Nat
  | .compareExchange p false =>
    if c.queue.attempt p = some c.queue.buffer.tail then c.failures
    else Function.update c.failures p (c.failures p + 1)
  | _ => c.failures

def Contest.step (c : Contest ι α) (action : Action ι α) : Option (Contest ι α) :=
  (Mpsc.step c.queue action).map fun q =>
    { queue := q, loaded := c.loadedAfter action, failures := c.failuresAfter action }

/-- The reservations of other producers. -/
def State.rivals (q : State ι α) (p : ι) : Nat := (q.cells.map Cell.owner).countP (· ≠ p)

/-- A producer has failed once for each of some reservations of others, none of which was made since it loaded
    `tail`. -/
structure Fair (c : Contest ι α) (p : ι) : Prop where
  charged : c.failures p ≤ c.queue.rivals p
  attempt : ∀ r w, c.queue.producers p = .tailLoaded r w → w = BitVec.ofNat 32 (nodeSize * c.loaded p) ∧
    c.loaded p ≤ c.queue.cells.length ∧
    c.failures p + (c.queue.cells.length - c.loaded p) ≤ c.queue.rivals p

variable {c d : Contest ι α}

omit [Inhabited α] in
theorem Fair.congr (fair : Fair c p) (owners : d.queue.cells.map Cell.owner = c.queue.cells.map Cell.owner)
    (producer : ∀ r w, d.queue.producers p = .tailLoaded r w → c.queue.producers p = .tailLoaded r w)
    (loaded : d.loaded p = c.loaded p) (failures : d.failures p = c.failures p) : Fair d p := by
  have length : d.queue.cells.length = c.queue.cells.length := by
    have lengths := congrArg List.length owners
    rwa [List.length_map, List.length_map] at lengths
  have rivals : d.queue.rivals p = c.queue.rivals p := by rw [State.rivals, owners, ← State.rivals]
  constructor
  · rw [failures, rivals]
    exact fair.charged
  · intro r w place
    rw [loaded, failures, rivals, length]
    exact fair.attempt r w (producer r w place)

omit [DecidableEq ι] [Inhabited α] in
theorem owners_progress (cells : List (Cell ι α)) (i : Nat) (change : Stage α → Stage α) :
    (cells.modify i (Cell.progress change)).map Cell.owner = cells.map Cell.owner := by
  induction cells generalizing i with
  | nil => cases i <;> rfl
  | cons cell rest held =>
    cases i with
    | zero => rfl
    | succ i => simp [held]

/-- The actions that begin no attempt and end none. -/
def Action.aside : Action ι α → Bool
  | .loadTail _ | .compareExchange _ _ => false
  | _ => true

omit [Inhabited α] in
theorem setProducer_attempt {x : ι} {place : Producer} (other : ∀ r w, place ≠ .tailLoaded r w) (r w : BitVec 32)
    (at_ : (q.setProducer p place).producers x = .tailLoaded r w) : q.producers x = .tailLoaded r w := by
  by_cases same : x = p
  · subst same
    simp only [State.setProducer, Function.update_self] at at_
    exact absurd at_ (other r w)
  · simp only [State.setProducer, Function.update_of_ne same] at at_
    exact at_

theorem aside_step {action : Action ι α} (aside : action.aside = true) (taken : step q action = some r) :
    r.cells.map Cell.owner = q.cells.map Cell.owner ∧
    ∀ x h w, r.producers x = .tailLoaded h w → q.producers x = .tailLoaded h w := by
  cases step_moves taken with
  | loadTail => cases aside
  | compareExchange => cases aside
  | loadHead =>
    unfold loadHead
    split
    · exact ⟨rfl, fun x h w at_ => setProducer_attempt (by simp) h w at_⟩
    · exact ⟨rfl, fun x h w at_ => setProducer_attempt (by simp) h w at_⟩
  | giveUp => exact ⟨rfl, fun x h w at_ => setProducer_attempt (by simp) h w at_⟩
  | store => exact ⟨owners_progress _ _ _, fun x h w at_ => setProducer_attempt (by simp) h w at_⟩
  | commit => exact ⟨owners_progress _ _ _, fun x h w at_ => setProducer_attempt (by simp) h w at_⟩
  | peekHead | peekTail | peekNode | peekId => split <;> exact ⟨rfl, fun _ _ _ at_ => at_⟩
  | read | advance => exact ⟨rfl, fun _ _ _ at_ => at_⟩
  | clear => exact ⟨owners_progress _ _ _, fun _ _ _ at_ => at_⟩

theorem Fair.loadTail (inv : Inv c.queue) (fair : Fair c p) {x : ι}
    (taken : Contest.step c (.loadTail x) = some d) : Fair d p := by
  obtain ⟨q, stepped, rfl⟩ := Option.map_eq_some_iff.mp taken
  obtain ⟨h, _, rfl⟩ := step_loadTail stepped
  have cells : (Mpsc.loadTail c.queue x h).cells = c.queue.cells := by
    unfold Mpsc.loadTail
    split <;> rfl
  by_cases own : x = p
  · subst own
    constructor
    · rw [State.rivals, cells]
      exact fair.charged
    · intro r w place
      have tail : w = c.queue.buffer.tail := by
        unfold Mpsc.loadTail at place
        split at place <;> simp only [State.setProducer, Function.update_self, reduceCtorEq] at place
        cases place
        rfl
      dsimp only [Contest.loadedAfter]
      rw [State.rivals, cells, Function.update_self, Nat.sub_self, Nat.add_zero]
      exact ⟨tail.trans inv.ring.tail, Nat.le_refl _, fair.charged⟩
  · refine fair.congr (congrArg (List.map Cell.owner) cells) ?_ (Function.update_of_ne (Ne.symm own) _ _) rfl
    intro r w place
    dsimp only at place
    unfold Mpsc.loadTail at place
    split at place <;> simpa only [State.setProducer, Function.update_of_ne (Ne.symm own)] using place

omit [Inhabited α] in
theorem reserve_rivals (x : ι) (w : BitVec 32) (node : Nat) :
    (reserve q x w node).rivals p = if x = p then q.rivals p else q.rivals p + 1 := by
  rw [State.rivals, reserve, List.map_append, List.countP_append, ← State.rivals]
  by_cases own : x = p
  · simp [own]
  · simp [own]

theorem Fair.exchanged (inv : Inv c.queue) (fair : Fair c p) {x : ι} {h : BitVec 32}
    (place : c.queue.producers x = .tailLoaded h c.queue.buffer.tail)
    (taken : Contest.step c (.compareExchange x false) = some d) : Fair d p := by
  obtain ⟨q, stepped, rfl⟩ := Option.map_eq_some_iff.mp taken
  have won : c.queue.attempt x = some c.queue.buffer.tail := by rw [State.attempt, place]
  have moved : ∃ node, q = reserve c.queue x c.queue.buffer.tail node := by
    obtain ⟨_, w, at_, rfl⟩ := step_compareExchange stepped
    rw [place] at at_
    cases at_
    rw [compareExchange, if_pos ⟨rfl, rfl⟩, inv.ring.tail, inv.ring.pointer]
    exact ⟨_, rfl⟩
  obtain ⟨node, rfl⟩ := moved
  have failures : c.failuresAfter (.compareExchange x false) = c.failures := if_pos won
  have loaded : c.loadedAfter (.compareExchange x false) = c.loaded := rfl
  rw [failures, loaded]
  constructor
  · dsimp only
    rw [reserve_rivals]
    have charged := fair.charged
    split <;> omega
  · intro r w at_
    by_cases own : x = p
    · subst own
      simp [reserve, State.setProducer] at at_
    · have before : c.queue.producers p = .tailLoaded r w := by
        simpa only [reserve, State.setProducer, Function.update_of_ne (Ne.symm own)] using at_
      obtain ⟨word, below, charged⟩ := fair.attempt r w before
      have length : (reserve c.queue x c.queue.buffer.tail node).cells.length = c.queue.cells.length + 1 := by
        simp [reserve]
      dsimp only
      rw [reserve_rivals, if_neg own, length]
      refine ⟨word, ?_, ?_⟩ <;> omega

/-- The exchange fails and `tail` has moved, so a reservation came between. -/
theorem Fair.overtaken (inv : Inv c.queue) (fair : Fair c p) {r w : BitVec 32}
    (place : c.queue.producers p = .tailLoaded r w) (moved : c.queue.buffer.tail ≠ w) :
    c.failures p + 1 ≤ c.queue.rivals p := by
  obtain ⟨word, below, charged⟩ := fair.attempt r w place
  have later : c.loaded p ≠ c.queue.cells.length := by
    intro same
    rw [same, ← inv.ring.tail] at word
    exact moved word.symm
  omega

theorem Fair.failed (inv : Inv c.queue) (fair : Fair c p) {x : ι} {spurious : Bool} {h w : BitVec 32}
    (place : c.queue.producers x = .tailLoaded h w) (lost : ¬ (c.queue.buffer.tail = w ∧ spurious = false))
    (taken : Contest.step c (.compareExchange x spurious) = some d) : Fair d p := by
  obtain ⟨q, stepped, rfl⟩ := Option.map_eq_some_iff.mp taken
  obtain ⟨_, _, at_, rfl⟩ := step_compareExchange stepped
  rw [place] at at_
  cases at_
  have back : compareExchange c.queue x w spurious = c.queue.setProducer x .idle := if_neg lost
  rw [back]
  by_cases own : x = p
  · subst own
    refine ⟨?_, fun r w at_ => ?_⟩
    · cases spurious with
      | true => exact fair.charged
      | false =>
        have moved : c.queue.buffer.tail ≠ w := fun same => lost ⟨same, rfl⟩
        have missed : c.queue.attempt x ≠ some c.queue.buffer.tail := by
          rw [State.attempt, place]
          exact fun same => moved (Option.some.inj same).symm
        dsimp only [Contest.failuresAfter]
        rw [if_neg missed, Function.update_self]
        exact fair.overtaken inv place moved
    · simp [State.setProducer] at at_
  · refine fair.congr rfl ?_ rfl ?_
    · intro r w at_
      exact setProducer_attempt (by simp) r w at_
    · cases spurious with
      | true => rfl
      | false =>
        dsimp only [Contest.failuresAfter]
        split
        · rfl
        · exact Function.update_of_ne (Ne.symm own) _ _

theorem Fair.step (inv : Inv c.queue) (fair : Fair c p) {action : Action ι α}
    (taken : Contest.step c action = some d) : Fair d p := by
  by_cases aside : action.aside = true
  · obtain ⟨q, stepped, rfl⟩ := Option.map_eq_some_iff.mp taken
    obtain ⟨owners, attempts⟩ := aside_step aside stepped
    apply fair.congr owners (attempts p)
    · cases action <;> first | rfl | cases aside
    · cases action <;> first | rfl | cases aside
  · cases action <;> simp only [Action.aside, not_true_eq_false] at aside
    case loadTail x => exact fair.loadTail inv taken
    case compareExchange x spurious =>
      obtain ⟨q, stepped, _⟩ := Option.map_eq_some_iff.mp taken
      obtain ⟨h, w, place, _⟩ := step_compareExchange stepped
      by_cases won : c.queue.buffer.tail = w ∧ spurious = false
      · obtain ⟨rfl, rfl⟩ := won
        exact fair.exchanged inv place taken
      · exact fair.failed inv place won taken

def Contest.Bounded (c : Contest ι α) (action : Action ι α) : Prop := TailBounded c.queue action

instance (c : Contest ι α) (action : Action ι α) : Decidable (c.Bounded action) :=
  inferInstanceAs (Decidable (TailBounded c.queue action))

end Hvnetpp.Mpsc
