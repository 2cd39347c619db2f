import Hvnetpp.Loop.Traffic

namespace Hvnetpp.Loop

open Machine

variable {ι : Type} {s t : State ι}

inductive Place (ι : Type) where
  | caller (t : ι)
  | slot (node : Nat)
  | pending (k : Nat)
  | swapped (k : Nat)
  | executing
  | finished (k : Nat)
  deriving DecidableEq, Repr

/-- The node `doPendingFunctors` has taken its task from and not yet given back. -/
def busyNode (s : State ι) : Option Nat :=
  match s.queue.consumer with
  | .reading node _ | .cleared node _ => some node
  | _ => none

def State.contents (s : State ι) : Place ι → Option (Functor ι)
  | .caller t => (s.callers t).held
  | .slot node =>
    if Mpsc.nodeSize ∣ node ∧ node < s.queue.buffer.size ∧ busyNode s ≠ some node then
      (s.queue.buffer.data node).data
    else none
  | .pending k => s.pendingFunctors[k]?
  | .swapped k => s.phase.rest[k]?
  | .executing => s.phase.current
  | .finished k => s.finished[k]?

def cellPlace (cell : Mpsc.Cell ι (Option (Functor ι))) : Place ι :=
  match cell.stage with
  | .reserved => .caller cell.owner
  | _ => .slot cell.node

def indexed (place : Nat → Place ι) (functors : List (Functor ι)) : List (Functor ι × Place ι) :=
  functors.zipIdx.map fun entry => (entry.1, place entry.2)

def State.ringPlaces (s : State ι) : List (Functor ι × Place ι) :=
  (List.range' s.front (s.queue.cells.length - s.front)).filterMap fun i =>
    (s.queue.cells[i]?).bind fun cell => (s.cellFunctor cell).map fun f => (f, cellPlace cell)

/-- The pipeline with the place of each functor. -/
def State.layout (s : State ι) : List (Functor ι × Place ι) :=
  indexed .finished s.finished ++ s.phase.current.toList.map (fun f => (f, .executing)) ++
    indexed .swapped s.phase.rest ++ s.ringPlaces ++ indexed .pending s.pendingFunctors

theorem indexed_fst (place : Nat → Place ι) (functors : List (Functor ι)) :
    (indexed place functors).map Prod.fst = functors := by
  simp [indexed, Function.comp_def]

theorem mem_indexed {place : Nat → Place ι} {functors : List (Functor ι)} {f : Functor ι} {p : Place ι} :
    (f, p) ∈ indexed place functors ↔ ∃ k, functors[k]? = some f ∧ place k = p := by
  simp [indexed, List.mem_zipIdx_iff_getElem?]

theorem ringPlaces_fst (s : State ι) : s.ringPlaces.map Prod.fst = s.ringFunctors := by
  rw [State.ringPlaces, State.ringFunctors, List.map_filterMap]
  apply List.filterMap_congr
  intro i _
  cases present : s.queue.cells[i]? with
  | none => simp [State.functorAt, present]
  | some cell => simp [State.functorAt, present, Function.comp_def]

theorem mem_ringPlaces {f : Functor ι} {p : Place ι} :
    (f, p) ∈ s.ringPlaces ↔ ∃ (i : Nat) (cell : Mpsc.Cell ι (Option (Functor ι))),
      s.front ≤ i ∧ s.queue.cells[i]? = some cell ∧ s.cellFunctor cell = some f ∧ cellPlace cell = p := by
  simp only [State.ringPlaces, List.mem_filterMap, List.mem_range'_1]
  constructor
  · rintro ⟨i, bounds, entry⟩
    obtain ⟨cell, present, entry⟩ := Option.bind_eq_some_iff.mp entry
    obtain ⟨g, functor, same⟩ := Option.map_eq_some_iff.mp entry
    cases same
    exact ⟨i, cell, bounds.1, present, functor, rfl⟩
  · rintro ⟨i, cell, lower, present, functor, rfl⟩
    have inside := (List.getElem?_eq_some_iff.mp present).1
    refine ⟨i, ⟨lower, by omega⟩, ?_⟩
    simp [present, functor]

theorem Inv.layout_fst (inv : Inv s) : s.layout.map Prod.fst = s.pipeline := by
  have alone : (s.phase.current.toList.map fun f => (f, (Place.executing : Place ι))).map Prod.fst =
      s.phase.current.toList := by
    simp [Function.comp_def]
  simp only [State.layout, List.map_append, indexed_fst, ringPlaces_fst, alone, State.pipeline, inv.history,
    List.append_assoc]

theorem busyNode_eq {node : Nat} (taken : busyNode s = some node) :
    ∃ payload, s.queue.consumer = .reading node payload ∨ s.queue.consumer = .cleared node payload := by
  unfold busyNode at taken
  split at taken
  · rename_i payload reading
    cases taken
    exact ⟨payload, .inl reading⟩
  · rename_i payload cleared
    cases taken
    exact ⟨payload, .inr cleared⟩
  · cases taken

theorem Inv.busy (inv : Inv s) {node : Nat} (taken : busyNode s = some node) :
    s.front = s.queue.popped + 1 ∧ ∃ owner stage,
      s.queue.cells[s.queue.popped]? = some ⟨owner, node, stage⟩ ∧ stage ≠ .reserved := by
  obtain ⟨payload, holds⟩ := busyNode_eq taken
  have stands := inv.phase
  have ahead : s.phase.ahead = 1 := by
    cases place : s.phase with
    | running f => rfl
    | ran => rfl
    | draining =>
      rw [place] at stands
      rcases holds with reading | cleared
      · exact absurd reading (stands.2.2 node payload).1
      · exact absurd cleared (stands.2.2 node payload).2
    | _ =>
      rw [place] at stands
      rw [stands.1] at holds
      rcases holds with reading | cleared
      · cases reading
      · cases cleared
  refine ⟨by rw [State.front, ahead], ?_⟩
  have queue : Mpsc.Inv s.queue := by
    rcases inv.backed with initial | queue
    · rw [busyNode, initial] at taken
      cases taken
    · exact queue
  have consumer := queue.consumer
  rcases holds with reading | cleared
  · rw [reading] at consumer
    obtain ⟨owner, id, present⟩ := consumer
    exact ⟨owner, _, present, by simp⟩
  · rw [cleared] at consumer
    obtain ⟨owner, present⟩ := consumer
    exact ⟨owner, _, present, by simp⟩

theorem Inv.front_cases (inv : Inv s) :
    (s.front = s.queue.popped ∧ busyNode s = none) ∨ ∃ node, busyNode s = some node := by
  cases taken : busyNode s with
  | some node => exact .inr ⟨node, rfl⟩
  | none =>
    left
    refine ⟨?_, rfl⟩
    have stands := inv.phase
    cases place : s.phase <;> simp only [place, PhaseAt] at stands <;>
      simp only [State.front, place, Phase.ahead, Nat.add_zero]
    · obtain ⟨_, _, node, reading⟩ := stands
      simp [busyNode, reading] at taken
    · obtain ⟨_, _, node, payload, reading | cleared⟩ := stands
      · simp [busyNode, reading] at taken
      · simp [busyNode, cleared] at taken

theorem Inv.waits_iff (inv : Inv s) {i : Nat} {cell : Mpsc.Cell ι (Option (Functor ι))}
    (queue : Mpsc.Inv s.queue) (present : s.queue.cells[i]? = some cell) (outstanding : s.queue.popped ≤ i) :
    s.front ≤ i ↔ busyNode s ≠ some cell.node := by
  rcases inv.front_cases with ⟨front, free⟩ | ⟨node, taken⟩
  · rw [front, free]
    simp [outstanding]
  · obtain ⟨front, owner, stage, head, _⟩ := inv.busy taken
    rw [front, taken]
    constructor
    · intro later same
      cases same
      have within := queue.ring.within
      have inside := (List.getElem?_eq_some_iff.mp present).1
      have apart := queue.ring.cyclic.ne (Nat.le_refl _) outstanding (by omega) (by omega)
        (show s.queue.popped ≠ i by omega)
      rw [← queue.ring.nodes _ _ head, ← queue.ring.nodes _ _ present] at apart
      exact apart rfl
    · intro different
      rcases Nat.lt_or_eq_of_le outstanding with less | equal
      · exact less
      · subst equal
        rw [head] at present
        cases present
        exact absurd rfl different

theorem stage_node_iff (s : State ι) {cell : Mpsc.Cell ι (Option (Functor ι))} {f : Functor ι} {node : Nat}
    (unretired : ∀ pointer, cell.stage ≠ .retired pointer) :
    cell.stage.node.data = some f ∧ cell.node = node ↔
      s.cellFunctor cell = some f ∧ cellPlace cell = .slot node := by
  unfold State.cellFunctor cellPlace
  cases stage : cell.stage with
  | reserved => simp [Mpsc.Stage.node, Mpsc.Node.zeroed]
  | written pointer => simp [Mpsc.Stage.node]
  | committed pointer id => simp [Mpsc.Stage.node]
  | retired pointer => exact absurd stage (unretired pointer)

theorem Inv.unretired (inv : Inv s) (queue : Mpsc.Inv s.queue) {i : Nat}
    {cell : Mpsc.Cell ι (Option (Functor ι))} (present : s.queue.cells[i]? = some cell)
    (waits : s.front ≤ i) (pointer : Option (Functor ι)) : cell.stage ≠ .retired pointer := by
  intro retired
  have outstanding : s.queue.popped ≤ i := Nat.le_trans (Nat.le_add_right _ _) waits
  obtain ⟨rfl, node, cleared⟩ := queue.future i cell pointer outstanding present retired
  have held : busyNode s = some node := by simp only [busyNode, cleared]
  have front := (inv.busy held).1
  omega

theorem Inv.slot_iff (inv : Inv s) {node : Nat} {f : Functor ι} :
    s.contents (.slot node) = some f ↔ (f, .slot node) ∈ s.ringPlaces := by
  rw [mem_ringPlaces]
  rcases inv.backed with initial | queue
  · have blank : s.queue.buffer.data node = .zeroed := by rw [initial]; rfl
    have empty : s.queue.cells = [] := by rw [initial]; rfl
    simp only [State.contents, blank, empty]
    split <;> simp [Mpsc.Node.zeroed]
  · constructor
    · intro found
      simp only [State.contents] at found
      split at found
      · rename_i slot
        obtain ⟨aligned, inside, free⟩ := slot
        obtain ⟨i, lower, upper, rfl⟩ := queue.ring.lap aligned inside
        have entry := queue.ring.memory i lower upper
        cases present : s.queue.cells[i]? with
        | none =>
          rw [entry, present] at found
          cases found
        | some cell =>
          rw [entry, present] at found
          have node := queue.ring.nodes i cell present
          have waits : s.front ≤ i := by
            rw [inv.waits_iff queue present lower, node]
            exact free
          have placed := (stage_node_iff s (inv.unretired queue present waits)).mp ⟨found, node⟩
          exact ⟨i, cell, waits, present, placed⟩
      · cases found
    · rintro ⟨i, cell, waits, present, placed⟩
      have outstanding : s.queue.popped ≤ i := Nat.le_trans (Nat.le_add_right _ _) waits
      obtain ⟨found, rfl⟩ := (stage_node_iff s (inv.unretired queue present waits)).mpr placed
      have free := (inv.waits_iff queue present outstanding).mp waits
      have slot := queue.ring.nodes i cell present
      have aligned : Mpsc.nodeSize ∣ cell.node ∧ cell.node < s.queue.buffer.size := by
        rw [slot]
        exact Mpsc.slotOf_inside queue.ring.lower queue.ring.upper i
      rw [State.contents, if_pos ⟨aligned.1, aligned.2, free⟩, queue.ring.node_eq present outstanding]
      exact found

theorem Inv.caller_iff (inv : Inv s) {thread : ι} {f : Functor ι} :
    s.contents (.caller thread) = some f ↔
      (f, .caller thread) ∈ s.ringPlaces ∨ (s.inHand f ∧ f.caller = thread) := by
  rw [mem_ringPlaces]
  constructor
  · intro found
    have held : s.callers thread = .holding f := by
      simp only [State.contents] at found
      cases place : s.callers thread <;> simp only [place, Caller.held, reduceCtorEq] at found
      cases found
      rfl
    obtain ⟨own, _, _⟩ := inv.holding held
    by_cases reserved : ∃ node, s.queue.producers thread = .reserved node
    · left
      obtain ⟨node, reserved⟩ := reserved
      have queue := inv.queue thread (by simp [reserved])
      have at_ := queue.producers thread
      rw [reserved] at at_
      have outstanding := queue.outstanding at_ (by simp)
      refine ⟨_, _, ?_, at_, by simp [State.cellFunctor, held, Caller.held], rfl⟩
      rcases inv.front_cases with ⟨front, _⟩ | ⟨other, taken⟩
      · omega
      · obtain ⟨front, owner, stage, head, different⟩ := inv.busy taken
        have apart : s.queue.popped ≠ s.queue.ticket thread := by
          intro same
          rw [same, at_] at head
          cases head
          exact different rfl
        omega
    · right
      refine ⟨⟨?_, ?_⟩, own⟩
      · rw [own]
        exact held
      · rw [own]
        exact fun node at_ => reserved ⟨node, at_⟩
  · rintro (⟨i, cell, _, _, functor, place⟩ | ⟨⟨held, _⟩, rfl⟩)
    · unfold cellPlace at place
      split at place
      · rename_i stage
        cases place
        simp only [State.cellFunctor, stage] at functor
        exact functor
      · cases place
    · simp only [State.contents, held, Caller.held]

theorem ringPlaces_place {f : Functor ι} {place : Place ι} (member : (f, place) ∈ s.ringPlaces) :
    (∃ thread, place = .caller thread) ∨ ∃ node, place = .slot node := by
  obtain ⟨i, cell, _, _, _, rfl⟩ := mem_ringPlaces.mp member
  unfold cellPlace
  split
  · exact .inl ⟨_, rfl⟩
  · exact .inr ⟨_, rfl⟩

theorem Inv.contents_iff (inv : Inv s) {place : Place ι} {f : Functor ι} :
    s.contents place = some f ↔ (f, place) ∈ s.layout ∨ (s.inHand f ∧ place = .caller f.caller) := by
  have elsewhere : (f, place) ∈ s.ringPlaces →
      (∃ thread, place = .caller thread) ∨ ∃ node, place = .slot node := ringPlaces_place
  simp only [State.layout, List.mem_append, mem_indexed, List.mem_map, Option.mem_toList]
  cases place with
  | caller thread =>
    rw [inv.caller_iff]
    simp [eq_comm]
  | slot node =>
    rw [inv.slot_iff]
    simp
  | pending k =>
    have absent : (f, Place.pending k) ∉ s.ringPlaces := by simpa using elsewhere
    simp [State.contents, absent]
  | swapped k =>
    have absent : (f, Place.swapped k) ∉ s.ringPlaces := by simpa using elsewhere
    simp [State.contents, absent]
  | executing =>
    have absent : (f, Place.executing) ∉ s.ringPlaces := by simpa using elsewhere
    simp [State.contents, absent]
  | finished k =>
    have absent : (f, Place.finished k) ∉ s.ringPlaces := by simpa using elsewhere
    simp [State.contents, absent]

/-- Every functor passed to `queueInLoop` stands in one place, and what has been started is what is
    finished and what is executing, each once. -/
theorem Inv.placed (inv : Inv s) {f : Functor ι} (passed : f.seq < s.calls f.caller) :
    ∃! place, s.contents place = some f := by
  by_cases hand : s.inHand f
  · have absent : ∀ place, (f, place) ∉ s.layout := by
      intro place member
      have known : f ∈ s.pipeline := by
        rw [← inv.layout_fst]
        exact List.mem_map.mpr ⟨_, member, rfl⟩
      exact ((inv.passed f).mp known).2 hand
    refine ⟨.caller f.caller, inv.contents_iff.mpr (.inr ⟨hand, rfl⟩), ?_⟩
    intro place found
    rcases inv.contents_iff.mp found with member | ⟨_, same⟩
    · exact absurd member (absent place)
    · exact same
  · have known : f ∈ s.layout.map Prod.fst := by
      rw [inv.layout_fst, inv.passed]
      exact ⟨passed, hand⟩
    have distinct : (s.layout.map Prod.fst).Nodup := by
      rw [inv.layout_fst]
      exact inv.nodup
    obtain ⟨⟨_, place⟩, member, rfl⟩ := List.mem_map.mp known
    refine ⟨place, inv.contents_iff.mpr (.inl member), ?_⟩
    intro other found
    rcases inv.contents_iff.mp found with second | ⟨held, _⟩
    · have same := List.inj_on_of_nodup_map distinct second member rfl
      exact congrArg Prod.snd same
    · exact absurd held hand

theorem Inv.started_nodup (inv : Inv s) : s.started.Nodup := by
  have distinct := inv.nodup
  simp only [State.pipeline, List.append_assoc] at distinct
  exact distinct.of_append_left

section Runs

variable [DecidableEq ι]

/-- In every run in which `tail` does not wrap around under a pending exchange, each functor passed to
    `queueInLoop` is in exactly one place, and none is started twice. -/
theorem functor_in_one_place {threadId : ι} {mapped : Bool}
    (run : Reaches step Bounded (State.initial threadId mapped) s) :
    (∀ f, f.seq < s.calls f.caller → ∃! place, s.contents place = some f) ∧
      s.started = s.finished ++ s.phase.current.toList ∧ s.started.Nodup := by
  have inv := reachable_inv run
  exact ⟨fun _ passed => inv.placed passed, inv.history, inv.started_nodup⟩

theorem functor_in_one_place_midway : ∃ s : State (Fin 2),
    s.contents (.slot 0) = some ⟨1, 0⟩ ∧ s.contents (.caller 1) = some ⟨1, 1⟩ ∧
    (∀ f, f.seq < s.calls f.caller → ∃! place, s.contents place = some f) ∧
    s.started = s.finished ++ s.phase.current.toList ∧ s.started.Nodup := by
  have ran : (exec (guarded step Bounded) (State.initial (0 : Fin 2) true)
      (.enter :: publishing 1 ++ [.call 1, .loadHead 1])).map
        (fun s => (s.contents (.slot 0), s.contents (.caller 1))) = some (some ⟨1, 0⟩, some ⟨1, 1⟩) := by
    decide
  obtain ⟨s, reached, seen⟩ := Option.map_eq_some_iff.mp ran
  obtain ⟨inSlot, inHand⟩ := Prod.mk.inj seen
  exact ⟨s, inSlot, inHand, functor_in_one_place (exec_guarded_reaches reached)⟩

/-- What an exchange and the store of the pointer leave when the ring is full: the slot is the head's. -/
def State.overwritten (s : State ι) (thread : ι) (f : Functor ι) (node : Nat) : State ι :=
  { s.setCaller thread (.released f) with
    queue := Mpsc.store (Mpsc.reserve s.queue thread s.queue.buffer.tail node) thread node (some f) }

theorem overwrites (inv : Inv s) {thread : ι} {f : Functor ι} {r : BitVec 32}
    (held : s.callers thread = .holding f)
    (attempting : s.queue.producers thread = .tailLoaded r s.queue.buffer.tail)
    (full : s.queue.cells.length = s.queue.popped + s.queue.buffer.capacity) :
    exec step s [.exchange thread false, .store thread] =
      some (s.overwritten thread f (Mpsc.slotOf s.queue.buffer.order s.queue.popped)) := by
  have queue := inv.queue thread (by simp [attempting])
  have pointer : s.queue.buffer.getPointer s.queue.buffer.tail =
      some (Mpsc.slotOf s.queue.buffer.order s.queue.popped) := by
    rw [queue.ring.tail, queue.ring.pointer, full, queue.ring.cyclic.period]
  simp [step, Action.ofCaller, callerStep, State.reserving, held, queue.ring.valid, Mpsc.step,
    Mpsc.producerStep, attempting, Mpsc.compareExchange, pointer, State.overwritten, State.setCaller,
    Mpsc.reserve, Mpsc.State.setProducer]

/-- An exchange that succeeds on a full ring loses the functor that waits at its head. -/
theorem overwritten_loses (inv : Inv s) {thread owner : ι} {f g : Functor ι} {id : BitVec 32}
    (held : s.callers thread = .holding f) (free : ∀ node, s.queue.producers thread ≠ .reserved node)
    (waiting : s.front = s.queue.popped)
    (head : s.queue.cells[s.queue.popped]? =
      some ⟨owner, Mpsc.slotOf s.queue.buffer.order s.queue.popped, .committed (some g) id⟩) :
    g.seq < s.calls g.caller ∧ ∀ place,
      (s.overwritten thread f (Mpsc.slotOf s.queue.buffer.order s.queue.popped)).contents place ≠ some g := by
  have there : s.contents (.slot (Mpsc.slotOf s.queue.buffer.order s.queue.popped)) = some g := by
    rw [inv.slot_iff, mem_ringPlaces]
    exact ⟨_, _, Nat.le_of_eq waiting, head, rfl, rfl⟩
  have known : g ∈ s.pipeline := by
    rw [← inv.layout_fst]
    rcases inv.contents_iff.mp there with member | ⟨_, absurd⟩
    · exact List.mem_map.mpr ⟨_, member, rfl⟩
    · cases absurd
  obtain ⟨passed, gone⟩ := (inv.passed g).mp known
  have only : ∀ other, s.contents other = some g →
      other = .slot (Mpsc.slotOf s.queue.buffer.order s.queue.popped) := by
    intro other found
    exact (inv.placed passed).unique found there
  have own := (inv.holding held).1
  have different : f ≠ g := by
    rintro rfl
    apply gone
    unfold State.inHand
    rw [own]
    exact ⟨held, free⟩
  have kept : ∀ other, other ≠ .caller thread →
      other ≠ .slot (Mpsc.slotOf s.queue.buffer.order s.queue.popped) →
      (s.overwritten thread f (Mpsc.slotOf s.queue.buffer.order s.queue.popped)).contents other =
        s.contents other := by
    intro other notCaller notSlot
    cases other with
    | caller q =>
      have apart : q ≠ thread := by simpa using notCaller
      simp only [State.contents, State.overwritten, State.setCaller, Function.update_of_ne apart]
    | slot node =>
      have apart : node ≠ Mpsc.slotOf s.queue.buffer.order s.queue.popped := by simpa using notSlot
      have data : (s.overwritten thread f (Mpsc.slotOf s.queue.buffer.order s.queue.popped)).queue.buffer.data
          node = s.queue.buffer.data node := Function.update_of_ne apart _ _
      simp only [State.contents, data]
      rfl
    | _ => rfl
  refine ⟨passed, ?_⟩
  intro place
  by_cases atCaller : place = .caller thread
  · subst atCaller
    simp [State.contents, State.overwritten, State.setCaller, Caller.held]
  · by_cases atSlot : place = .slot (Mpsc.slotOf s.queue.buffer.order s.queue.popped)
    · subst atSlot
      simp [State.contents, State.overwritten, State.setCaller, Mpsc.store, Mpsc.State.setNode,
        Mpsc.State.setCell, Mpsc.State.setProducer, different]
    · rw [kept place atCaller atSlot]
      intro found
      exact atSlot (only place found)

/-- Nobody is in a call but `thread`, which is about to exchange: every reservation is committed. -/
theorem Inv.head_committed (inv : Inv s) (queue : Mpsc.Inv s.queue) {thread : ι} {r w : BitVec 32}
    (idle : s.queue.consumer = .idle) (attempting : s.queue.producers thread = .tailLoaded r w)
    (outside : ∀ other, other ≠ thread → s.callers other = .outside)
    (nonempty : s.queue.popped < s.queue.cells.length) :
    ∃ owner g id, s.queue.cells[s.queue.popped]? =
      some ⟨owner, Mpsc.slotOf s.queue.buffer.order s.queue.popped, .committed (some g) id⟩ := by
  have present : s.queue.cells[s.queue.popped]? = some s.queue.cells[s.queue.popped] :=
    List.getElem?_eq_getElem nonempty
  generalize s.queue.cells[s.queue.popped] = cell at present
  obtain ⟨g, functor⟩ := inv.entries _ _ present
  have node := queue.ring.nodes _ _ present
  have closed : ∀ place, s.queue.producers cell.owner = place → place = .idle ∨ place = .tailLoaded r w := by
    rintro place rfl
    by_cases same : cell.owner = thread
    · rw [same]
      exact .inr attempting
    · exact .inl (inv.outside_idle (outside _ same))
  obtain ⟨owner, own, stage⟩ := cell
  cases stage with
  | reserved =>
    have owned := closed _ (inv.reserved_owner present rfl).1
    simp at owned
  | written pointer =>
    have owned := closed _ (inv.written_owner present rfl).1
    simp at owned
  | committed pointer id =>
    simp only [State.cellFunctor] at functor
    simp only at node
    exact ⟨owner, g, id, by rw [present, functor, node]⟩
  | retired pointer =>
    obtain ⟨_, other, cleared⟩ := queue.future _ _ pointer (Nat.le_refl _) present rfl
    rw [idle] at cleared
    cases cleared

/-- Thread 1 loads `head` and `tail` and is suspended. `2^26` reservations later the 32-bit `tail` is back at
    its value and the ring is full: the exchange succeeds, and a functor of thread 2 is lost. -/
theorem functor_lost_after_wraparound :
    ∃ (s : State (Fin 3)) (g : Functor (Fin 3)), Reaches step Any (State.initial 0 true) s ∧
      g.seq < s.calls g.caller ∧ ∀ place, s.contents place ≠ some g := by
  have start : (exec (guarded step Bounded) (State.initial (0 : Fin 3) true)
      [.enter, .call 1, .loadHead 1, .loadTail 1]).map (fun s => (s.threadId, s.phase, s.quit,
        s.pendingFunctors, s.callers 0, s.callers 1, s.callers 2)) =
      some (0, .polling, false, [], .outside, .holding ⟨1, 0⟩, .outside) := rfl
  have atQueue : (exec (guarded step Bounded) (State.initial (0 : Fin 3) true)
      [.enter, .call 1, .loadHead 1, .loadTail 1]).map (fun s => (s.queue.buffer.valid,
        s.queue.buffer.order, s.queue.consumed, s.queue.cells, s.queue.producers 1)) =
      some (true, 16, [], [], .tailLoaded 0 0) := rfl
  obtain ⟨s, reached, facts⟩ := Option.map_eq_some_iff.mp start
  rw [reached, Option.map_some, Option.some.injEq] at atQueue
  simp only [Prod.mk.injEq] at facts atQueue
  obtain ⟨threadId, polling, going, pending, loop, held, outside⟩ := facts
  obtain ⟨valid, order, consumed, cells, attempting⟩ := atQueue
  have run := exec_guarded_reaches reached
  have sleeping : Sleeping s :=
    ⟨polling, by rw [threadId]; exact loop, valid, by rw [Mpsc.State.popped, consumed, cells]; rfl, pending, going⟩
  obtain ⟨t, laps, sleeps, threadId', callers, producers, order', length⟩ :=
    rounds (reachable_inv run) sleeping 2 (by rw [threadId]; decide) outside (2 ^ 26 - 1024)
  replace run := run.trans laps
  obtain ⟨u, flooding, undisturbed, length'⟩ := floods (reachable_inv run) 2 sleeps.valid
    (by rw [threadId', threadId]; decide) (by rw [callers]; exact outside) 1024
    (by rw [sleeps.empty, Mpsc.CircularBuffer.capacity, order', order]; exact Nat.le_refl _)
  replace run := run.trans flooding
  have inv := reachable_inv run
  have count : u.queue.cells.length = 2 ^ 26 := by
    rw [length', length, cells]
    rfl
  have popped : u.queue.popped = 2 ^ 26 - 1024 := by
    have empty := sleeps.empty
    rw [length, cells] at empty
    rw [Mpsc.State.popped, undisturbed.consumed]
    exact empty
  have full : u.queue.cells.length = u.queue.popped + u.queue.buffer.capacity := by
    rw [count, popped, Mpsc.CircularBuffer.capacity, undisturbed.order, order', order]
    rfl
  have queue : Mpsc.Inv u.queue := inv.backed.inv (undisturbed.valid.trans sleeps.valid)
  have wrapped : u.queue.buffer.tail = 0 := by
    rw [queue.ring.tail, count]
    rfl
  have holding : u.callers 1 = .holding ⟨1, 0⟩ := by rw [undisturbed.callers, callers, held]
  have about : u.queue.producers 1 = .tailLoaded 0 u.queue.buffer.tail := by
    rw [undisturbed.producers, producers, attempting, wrapped]
  have phase : u.phase = .polling := undisturbed.phase.trans sleeps.phase
  have others : ∀ other, other ≠ 1 → u.callers other = .outside := by
    intro other different
    rw [undisturbed.callers, callers]
    have cases : other = 0 ∨ other = 2 := by omega
    rcases cases with rfl | rfl
    · exact loop
    · exact outside
  obtain ⟨owner, g, id, head⟩ := inv.head_committed queue (inv.at_phase phase).1 about others (by omega)
  have front : u.front = u.queue.popped := by rw [State.front, phase]; rfl
  obtain ⟨passed, lost⟩ := overwritten_loses inv holding (by simp [about]) front head
  have last := exec_reaches (overwrites inv holding about full)
  exact ⟨_, g, (run.weaken fun _ _ _ => trivial).trans last, passed, lost⟩

end Runs

end Hvnetpp.Loop
