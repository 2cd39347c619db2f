import Hvnetpp.Mpsc.Trace

namespace Hvnetpp.Mpsc

open Machine

variable {ι α : Type}

section Logs

variable {log added : List (Entry ι)} {k : Nat} {entry : Entry ι}

theorem log_cases (present : (log ++ added)[k]? = some entry) :
    log[k]? = some entry ∨ log.length ≤ k ∧ entry ∈ added := by
  by_cases inside : k < log.length
  · left
    rw [List.getElem?_append_left inside] at present
    exact present
  · right
    rw [List.getElem?_append_right (Nat.le_of_not_lt inside)] at present
    exact ⟨Nat.le_of_not_lt inside, List.mem_of_getElem? present⟩

theorem mem_entries {thread : Option ι} {cell : Nat} {accesses : List (Access Location)} :
    entry ∈ entries thread cell accesses ↔ ∃ access ∈ accesses, entry = ⟨⟨thread, access⟩, cell⟩ := by
  simp only [entries, List.mem_map, eq_comm]

theorem event_at (present : log[k]? = some entry) : (log.map Entry.event)[k]? = some entry.event := by
  rw [List.getElem?_map, present]
  rfl

theorem entry_at {event : Event (Option ι) Location} (present : (log.map Entry.event)[k]? = some event) :
    ∃ entry, log[k]? = some entry ∧ entry.event = event := by
  rw [List.getElem?_map] at present
  exact Option.map_eq_some_iff.mp present

/-- The consumer has come to know of an access. -/
def Seen (log : List (Entry ι)) (k : Nat) : Prop :=
  ∃ m other, log[m]? = some other ∧ other.event.thread = none ∧ HappensBefore (log.map Entry.event) k m

theorem Seen.append (seen : Seen log k) (added : List (Entry ι)) : Seen (log ++ added) k := by
  obtain ⟨m, other, present, thread, before⟩ := seen
  refine ⟨m, other, getElem?_append_some present added, thread, ?_⟩
  rw [List.map_append]
  exact before.append _

/-- The store that committed a reservation: `id` was not written since, and it was the last access of the owner. -/
structure Published (log : List (Entry ι)) (i : Nat) (owner : ι) (node c : Nat) : Prop where
  present : log[c]? = some ⟨⟨some owner, .store (.id node) .release⟩, i⟩
  last : ∀ m entry, c < m → log[m]? = some entry → entry.event.access.modifies ≠ some (.id node)
  before : ∀ k entry, log[k]? = some entry → entry.cell = i → entry.event.thread ≠ none → entry.node ≠ none → k ≤ c

theorem Published.append {i node c : Nat} {owner : ι} (published : Published log i owner node c)
    (elsewhere : ∀ entry ∈ added, entry.event.access.modifies ≠ some (.id node))
    (others : ∀ entry ∈ added, entry.cell = i → entry.event.thread ≠ none → entry.node = none) :
    Published (log ++ added) i owner node c where
  present := getElem?_append_some published.present added
  last := by
    intro m entry after found
    rcases log_cases found with old | ⟨_, new⟩
    · exact published.last m entry after old
    · exact elsewhere entry new
  before := by
    intro k entry found cell thread located
    rcases log_cases found with old | ⟨_, new⟩
    · exact published.before k entry old cell thread located
    · exact absurd (others entry new cell thread) located

/-- A load of `id` that sees the commit acquires everything its owner did before. -/
theorem Published.acquired {i node c cell : Nat} {owner : ι} (published : Published log i owner node c)
    (present : log[k]? = some entry) (own : entry.event.thread = some owner) (upTo : k ≤ c) :
    Seen (log ++ entries none cell [.load (.id node) .acquire]) k := by
  let load : Entry ι := ⟨⟨none, .load (.id node) .acquire⟩, cell⟩
  have inside := (List.getElem?_eq_some_iff.mp published.present).1
  have last : (log ++ [load])[log.length]? = some load := by simp
  have kept {m : Nat} {other : Entry ι} (there : log[m]? = some other) :
      ((log ++ [load]).map Entry.event)[m]? = some other.event := event_at (getElem?_append_some there _)
  have synchronized : HappensBefore ((log ++ [load]).map Entry.event) c log.length := by
    apply HappensBefore.publishes inside (kept published.present) rfl (event_at last) rfl
    intro m event after before found
    obtain ⟨other, there, rfl⟩ := entry_at found
    rw [List.getElem?_append_left before] at there
    exact published.last m other after there
  refine ⟨log.length, load, last, rfl, ?_⟩
  rcases Nat.lt_or_eq_of_le upTo with less | rfl
  · exact .trans (.program _ _ less (kept present) (kept published.present) own) synchronized
  · exact synchronized

/-- The write of a reservation's payload, and in a later lap the `memset` of the node before it. -/
def Wrote (log : List (Entry ι)) (lap i : Nat) (owner : ι) (node : Nat) : Prop :=
  ∃ j : Nat, log[j]? = some ⟨⟨some owner, .write (.data node)⟩, i⟩ ∧
    (lap ≤ i → ∃ k : Nat, k < j ∧ log[k]? = some ⟨⟨none, .write (.data node)⟩, i - lap⟩)

theorem Wrote.append {lap i node : Nat} {owner : ι} (wrote : Wrote log lap i owner node) (added : List (Entry ι)) :
    Wrote (log ++ added) lap i owner node := by
  obtain ⟨j, present, cleared⟩ := wrote
  refine ⟨j, getElem?_append_some present added, fun reused => ?_⟩
  obtain ⟨k, before, there⟩ := cleared reused
  exact ⟨k, before, getElem?_append_some there added⟩

def Placed (s : State ι α) (entry : Entry ι) (node : Nat) : Prop :=
  ∃ cell, s.cells[entry.cell]? = some cell ∧ cell.node = node ∧
    (∀ p, entry.event.thread = some p → cell.owner = p ∧ cell.stage ≠ .reserved) ∧
    (entry.event.thread = none → entry.event.access.plain = true → ¬ cell.stage.Open)

/-- What the trace says of the reservations. -/
structure Chronicled [Inhabited α] (t : Traced ι α) : Prop where
  inv : Inv t.queue
  occurs : ∀ entry ∈ t.log, occurs entry.event.thread entry.event.access = true
  placed : ∀ entry ∈ t.log, ∀ node, entry.node = some node → Placed t.queue entry node
  seen : ∀ (k : Nat) entry, t.log[k]? = some entry → entry.event.thread ≠ none → entry.node ≠ none →
    entry.cell < t.queue.popped ∨ entry.cell = t.queue.popped ∧ t.queue.consumer.holds = true → Seen t.log k
  published : ∀ (i : Nat) owner node payload id, t.queue.popped ≤ i →
    t.queue.cells[i]? = some ⟨owner, node, .committed payload id⟩ → ∃ c, Published t.log i owner node c
  written : ∀ (i : Nat) cell, t.queue.cells[i]? = some cell → cell.stage ≠ .reserved →
    Wrote t.log t.queue.buffer.capacity i cell.owner cell.node
  retired : ∀ (i : Nat) owner node payload, t.queue.cells[i]? = some ⟨owner, node, .retired payload⟩ →
    ∃ k : Nat, t.log[k]? = some ⟨⟨none, .write (.data node)⟩, i⟩
  after : ∀ (i j : Nat) first second, i < j → t.log[i]? = some first → t.log[j]? = some second →
    first.cell = second.cell → first.node ≠ none → second.node ≠ none → first.event.thread = none →
    first.event.access.plain = true → second.event.thread = none
  handed : ∀ (i j : Nat) first second node, i < j → t.log[i]? = some first → t.log[j]? = some second →
    first.node = some node → second.node = some node → first.event.thread ≠ none → second.event.thread = none →
    second.event.access.plain = true → HappensBefore t.events i j

end Logs

section Kept

variable [DecidableEq ι] [Inhabited α] {t : Traced ι α} {q : State ι α} {thread : Option ι}
  {accesses : List (Access Location)} {p : ι}

omit [DecidableEq ι] in
theorem Chronicled.initial {order : Nat} (lower : 6 ≤ order) (upper : order ≤ 31) :
    Chronicled (Traced.initial ι α order) where
  inv := Inv.initial lower upper
  occurs _ member := by cases member
  placed _ member := by cases member
  seen _ _ present := by simp [Traced.initial] at present
  published _ _ _ _ _ _ present := by simp [Traced.initial, State.initial] at present
  written _ _ present := by simp [Traced.initial, State.initial] at present
  retired _ _ _ _ present := by simp [Traced.initial, State.initial] at present
  after _ _ _ _ _ present := by simp [Traced.initial] at present
  handed _ _ _ _ _ _ present := by simp [Traced.initial] at present

omit [DecidableEq ι] in
/-- The consumer holds the head reservation, which is committed. -/
theorem Inv.held {s : State ι α} (inv : Inv s) (holds : s.consumer.holds = true) :
    ∃ cell, s.cells[s.popped]? = some cell ∧ ¬ cell.stage.Open := by
  have stands := inv.consumer
  cases place : s.consumer <;> simp only [place, Consumer.holds, Bool.false_eq_true] at holds <;>
    simp only [place, ConsumerAt] at stands
  · obtain ⟨owner, payload, id, present⟩ := stands
    exact ⟨_, present, not_false⟩
  · obtain ⟨owner, id, present⟩ := stands
    exact ⟨_, present, not_false⟩
  · obtain ⟨owner, present⟩ := stands
    exact ⟨_, present, not_false⟩

omit [DecidableEq ι] [Inhabited α] in
theorem before_reserved {cells : List (Cell ι α)} {node i : Nat} {cell : Cell ι α}
    (present : (cells ++ [⟨p, node, .reserved⟩])[i]? = some cell) (written : cell.stage ≠ .reserved) :
    cells[i]? = some cell := by
  by_cases inside : i < cells.length
  · rw [List.getElem?_append_left inside] at present
    exact present
  · rw [List.getElem?_append_right (Nat.le_of_not_lt inside)] at present
    have last := List.mem_singleton.mp (List.mem_of_getElem? present)
    exact absurd (congrArg Cell.stage last) written

omit [DecidableEq ι] in
/-- Two reservations of one node are a lap apart. -/
theorem Inv.lap_apart {s : State ι α} (inv : Inv s) {i j : Nat} {cell other : Cell ι α}
    (present : s.cells[i]? = some cell) (there : s.cells[j]? = some other) (same : cell.node = other.node)
    (before : i < j) : i + s.buffer.capacity ≤ j := by
  by_contra near
  rw [inv.ring.nodes i cell present, inv.ring.nodes j other there] at same
  exact inv.ring.cyclic.distinct i j before (by omega) same

omit [DecidableEq ι] in
theorem Inv.outstanding_apart {s : State ι α} (inv : Inv s) {i j : Nat} {cell other : Cell ι α}
    (present : s.cells[i]? = some cell) (there : s.cells[j]? = some other) (ahead : s.popped ≤ i)
    (waits : s.popped ≤ j) (different : i ≠ j) : cell.node ≠ other.node := by
  intro same
  have within := inv.ring.within
  have left := (List.getElem?_eq_some_iff.mp present).1
  have right := (List.getElem?_eq_some_iff.mp there).1
  rcases Nat.lt_or_gt_of_ne different with less | more
  · have apart := inv.lap_apart present there same less
    omega
  · have apart := inv.lap_apart there present same.symm more
    omega

omit [DecidableEq ι] in
theorem Chronicled.placed_step (chronicled : Chronicled t) (chronicle : Chronicle t.queue q thread accesses) :
    ∀ entry ∈ t.log ++ entries thread (t.queue.cellOf thread) accesses, ∀ node, entry.node = some node →
      Placed q entry node := by
  intro entry member node located
  rcases List.mem_append.mp member with old | new
  · obtain ⟨cell, present, own, owner, closed⟩ := chronicled.placed entry old node located
    obtain ⟨next, there, onward⟩ := chronicle.onward present
    refine ⟨next, there, onward.node.trans own, ?_, ?_⟩
    · intro p by_
      obtain ⟨same, written⟩ := owner p by_
      exact ⟨onward.owner.trans same, onward.written written⟩
    · intro consumer plain
      exact onward.closed (closed consumer plain)
  · obtain ⟨access, among, rfl⟩ := mem_entries.mp new
    simp only [Entry.node] at located
    cases chronicle with
    | quiet _ _ _ _ aside _ => cases (aside access among).symm.trans located
    | reserved p own =>
      rw [List.mem_singleton.mp among] at located
      cases located
    | stored p own payload present cells =>
      rw [List.mem_singleton.mp among] at located ⊢
      cases located
      refine ⟨⟨p, node, .written payload⟩, ?_, rfl, fun _ by_ => ⟨Option.some.inj by_, by simp⟩, by simp⟩
      rw [cells, State.cellOf, List.getElem?_modify_eq, present]
      rfl
    | committed p own payload id present cells =>
      simp only [List.mem_cons, List.not_mem_nil, or_false] at among
      rcases among with rfl | rfl
      · cases located
      · cases located
        refine ⟨⟨p, node, .committed payload id⟩, ?_, rfl, fun _ by_ => ⟨Option.some.inj by_, by simp⟩, by simp⟩
        rw [cells, State.cellOf, List.getElem?_modify_eq, present]
        rfl
    | looked own cell present same cells =>
      rw [List.mem_singleton.mp among] at located ⊢
      cases located
      refine ⟨cell, ?_, same, by simp, by simp [Access.plain]⟩
      rw [cells]
      exact present
    | read owner own payload id present cells =>
      rw [List.mem_singleton.mp among] at located ⊢
      cases located
      refine ⟨⟨owner, node, .committed payload id⟩, ?_, rfl, by simp, fun _ _ => not_false⟩
      rw [cells]
      exact present
    | cleared owner own payload id present cells =>
      refine ⟨⟨owner, own, .retired payload⟩, ?_, ?_, by simp, fun _ _ => not_false⟩
      · rw [cells, State.cellOf, List.getElem?_modify_eq, present]
        rfl
      · simp only [List.mem_cons, List.not_mem_nil, or_false] at among
        rcases among with rfl | rfl <;> exact Option.some.inj located
    | advanced payload =>
      simp only [List.mem_cons, List.not_mem_nil, or_false] at among
      rcases among with rfl | rfl <;> cases located

omit [DecidableEq ι] in
/-- A reservation that is not committed is ahead of the consumer. -/
theorem Inv.ahead {s : State ι α} (inv : Inv s) {i : Nat} {cell : Cell ι α} (present : s.cells[i]? = some cell)
    (opened : cell.stage.Open) : s.popped ≤ i ∧ (i = s.popped → s.consumer.holds = false) := by
  constructor
  · apply inv.outstanding present
    intro payload retired
    rw [retired] at opened
    exact opened
  · rintro rfl
    by_contra holds
    obtain ⟨other, there, closed⟩ := inv.held (Bool.eq_true_of_not_eq_false holds)
    rw [present] at there
    cases there
    exact closed opened

omit [DecidableEq ι] [Inhabited α] in
/-- A producer that accesses a node has it reserved and has not committed it before. -/
theorem Chronicle.opened {s : State ι α} (chronicle : Chronicle s q (some p) accesses) {access : Access Location}
    (among : access ∈ accesses) (located : access.location.bind Location.node ≠ none) :
    (∃ cell, s.cells[s.ticket p]? = some cell ∧ cell.stage.Open) ∧ q.popped = s.popped ∧
    q.consumer = s.consumer := by
  cases chronicle with
  | quiet _ _ _ _ aside _ => exact absurd (aside access among) located
  | reserved _ node =>
    rw [List.mem_singleton.mp among] at located
    exact absurd rfl located
  | stored _ node payload present _ consumed consumer =>
    exact ⟨⟨_, present, trivial⟩, congrArg List.length consumed, consumer⟩
  | committed _ node payload id present _ consumed consumer =>
    exact ⟨⟨_, present, trivial⟩, congrArg List.length consumed, consumer⟩

omit [DecidableEq ι] in
theorem Chronicled.seen_step (chronicled : Chronicled t) (chronicle : Chronicle t.queue q thread accesses)
    {k : Nat} {entry : Entry ι}
    (present : (t.log ++ entries thread (t.queue.cellOf thread) accesses)[k]? = some entry)
    (producer : entry.event.thread ≠ none) (located : entry.node ≠ none)
    (passed : entry.cell < q.popped ∨ entry.cell = q.popped ∧ q.consumer.holds = true) :
    Seen (t.log ++ entries thread (t.queue.cellOf thread) accesses) k := by
  rcases log_cases present with old | ⟨_, new⟩
  · have before : entry.cell < t.queue.popped ∨
        entry.cell = t.queue.popped ∧ t.queue.consumer.holds = true →
        Seen (t.log ++ entries thread (t.queue.cellOf thread) accesses) k :=
      fun passed => (chronicled.seen k entry old producer located passed).append _
    have same (consumed : q.consumed = t.queue.consumed) : q.popped = t.queue.popped := congrArg List.length consumed
    cases chronicle with
    | quiet _ _ _ consumed _ holds =>
      rw [same consumed] at passed
      exact before (passed.imp_right fun held => ⟨held.1, holds held.2⟩)
    | reserved _ _ _ consumed consumer =>
      rw [same consumed, consumer] at passed
      exact before passed
    | stored _ _ _ _ _ consumed consumer =>
      rw [same consumed, consumer] at passed
      exact before passed
    | committed _ _ _ _ _ _ consumed consumer =>
      rw [same consumed, consumer] at passed
      exact before passed
    | read _ _ _ _ _ _ consumed held =>
      rw [same consumed] at passed
      exact before (passed.imp_right fun here => ⟨here.1, held⟩)
    | cleared _ _ _ _ _ _ consumed held =>
      rw [same consumed] at passed
      exact before (passed.imp_right fun here => ⟨here.1, held⟩)
    | advanced payload _ consumed held idle =>
      have length : q.popped = t.queue.popped + 1 := by simp [State.popped, consumed]
      rw [length, idle] at passed
      apply before
      rcases passed with less | ⟨_, held⟩
      · rcases Nat.lt_succ_iff_lt_or_eq.mp less with less | equal
        · exact .inl less
        · exact .inr ⟨equal, held⟩
      · cases held
    | looked node cell _ _ _ consumed found =>
      rw [same consumed] at passed
      rcases passed with less | ⟨equal, holds⟩
      · exact before (.inl less)
      · -- the load of `id` acquires what the commit of the head reservation has released
        obtain ⟨owner, payload, id, head⟩ := found holds
        obtain ⟨c, published⟩ := chronicled.published _ owner node payload id (Nat.le_refl _) head
        have upTo := published.before k entry old equal producer located
        apply published.acquired old _ upTo
        obtain ⟨own, at_⟩ := Option.ne_none_iff_exists'.mp located
        obtain ⟨p, by_⟩ := Option.ne_none_iff_exists'.mp producer
        obtain ⟨_, there, _, owned, _⟩ := chronicled.placed entry (List.mem_of_getElem? old) own at_
        rw [equal, head] at there
        cases there
        rw [by_, ← (owned p by_).1]
  · obtain ⟨access, among, rfl⟩ := mem_entries.mp new
    cases thread with
    | none => exact absurd rfl producer
    | some p =>
      obtain ⟨⟨cell, there, opened⟩, popped, consumer⟩ := chronicle.opened among located
      obtain ⟨ahead, unheld⟩ := chronicled.inv.ahead there opened
      rw [popped, consumer] at passed
      simp only [State.cellOf] at passed
      rcases passed with less | ⟨equal, holds⟩
      · omega
      · cases (unheld equal).symm.trans holds

omit [DecidableEq ι] in
theorem Chronicled.published_step (chronicled : Chronicled t) (chronicle : Chronicle t.queue q thread accesses)
    {i : Nat} {owner : ι} {node : Nat} {payload : α} {id : BitVec 32} (outstanding : q.popped ≤ i)
    (present : q.cells[i]? = some ⟨owner, node, .committed payload id⟩) :
    ∃ c, Published (t.log ++ entries thread (t.queue.cellOf thread) accesses) i owner node c := by
  have ahead : t.queue.popped ≤ i := Nat.le_trans chronicle.popped outstanding
  -- a reservation that was committed before: the new accesses must leave its `id` alone
  have old (before : t.queue.cells[i]? = some ⟨owner, node, .committed payload id⟩)
      (elsewhere : ∀ access ∈ accesses, access.modifies ≠ some (.id node))
      (others : t.queue.cellOf thread = i → thread ≠ none → ∀ access ∈ accesses,
        access.location.bind Location.node = none) :
      ∃ c, Published (t.log ++ entries thread (t.queue.cellOf thread) accesses) i owner node c := by
    obtain ⟨c, published⟩ := chronicled.published i owner node payload id ahead before
    refine ⟨c, published.append ?_ ?_⟩
    · intro entry new
      obtain ⟨access, among, rfl⟩ := mem_entries.mp new
      exact elsewhere access among
    · intro entry new cell producer
      obtain ⟨access, among, rfl⟩ := mem_entries.mp new
      exact others cell producer access among
  cases chronicle with
  | quiet _ _ cells _ aside _ =>
    apply old (cells ▸ present)
    · intro access among modifies
      have none := aside access among
      cases access <;> simp_all [Access.modifies, Access.location, Location.node]
    · exact fun _ _ => aside
  | reserved p own cells =>
    rw [cells] at present
    apply old (before_reserved present (by simp))
    · simp [Access.modifies]
    · simp [Access.location, Location.node]
  | stored p own value there cells =>
    rw [cells] at present
    rcases progress_cases present with ⟨different, before⟩ | ⟨_, cell, was, now⟩
    · apply old before
      · simp [Access.modifies]
      · exact fun equal => absurd equal.symm different
    · rw [there] at was
      cases was
      cases now
  | committed p own value number there cells =>
    rw [cells] at present
    rcases progress_cases present with ⟨different, before⟩ | ⟨rfl, cell, was, now⟩
    · apply old before
      · have waits := (chronicled.inv.ahead there trivial).1
        have apart := chronicled.inv.outstanding_apart before there ahead waits different
        intro access among
        simp only [List.mem_cons, List.not_mem_nil, or_false] at among
        rcases among with rfl | rfl
        · simp [Access.modifies]
        · intro same
          cases same
          exact apart rfl
      · exact fun equal => absurd equal.symm different
    · rw [there] at was
      cases was
      cases now
      refine ⟨t.log.length + 1, ?_, ?_, ?_⟩
      · simp [entries, State.cellOf]
      · intro m entry after found
        have inside := (List.getElem?_eq_some_iff.mp found).1
        simp [entries] at inside
        omega
      · intro k entry found _ _ _
        have inside := (List.getElem?_eq_some_iff.mp found).1
        simp [entries] at inside
        omega
  | looked own cell _ _ cells =>
    apply old (cells ▸ present)
    · simp [Access.modifies]
    · exact fun _ other => absurd rfl other
  | read _ own _ _ _ cells =>
    apply old (cells ▸ present)
    · simp [Access.modifies]
    · exact fun _ other => absurd rfl other
  | cleared _ own value number there cells =>
    rw [cells] at present
    rcases progress_cases present with ⟨different, before⟩ | ⟨_, cell, was, now⟩
    · apply old before
      · have apart := chronicled.inv.outstanding_apart before there ahead (Nat.le_refl _) different
        intro access among
        simp only [List.mem_cons, List.not_mem_nil, or_false] at among
        rcases among with rfl | rfl
        · simp [Access.modifies]
        · intro same
          cases same
          exact apart rfl
      · exact fun _ other => absurd rfl other
    · rw [there] at was
      cases was
      cases now
  | advanced _ cells =>
    apply old (cells ▸ present)
    · simp [Access.modifies]
    · exact fun _ other => absurd rfl other

omit [DecidableEq ι] in
theorem Chronicled.retired_step (chronicled : Chronicled t) (chronicle : Chronicle t.queue q thread accesses)
    {i : Nat} {owner : ι} {node : Nat} {payload : α} (present : q.cells[i]? = some ⟨owner, node, .retired payload⟩) :
    ∃ k : Nat, (t.log ++ entries thread (t.queue.cellOf thread) accesses)[k]? =
      some ⟨⟨none, .write (.data node)⟩, i⟩ := by
  have old (before : t.queue.cells[i]? = some ⟨owner, node, .retired payload⟩) : ∃ k : Nat,
      (t.log ++ entries thread (t.queue.cellOf thread) accesses)[k]? = some ⟨⟨none, .write (.data node)⟩, i⟩ := by
    obtain ⟨k, there⟩ := chronicled.retired i owner node payload before
    exact ⟨k, getElem?_append_some there _⟩
  cases chronicle with
  | quiet _ _ cells => exact old (cells ▸ present)
  | reserved p own cells =>
    rw [cells] at present
    exact old (before_reserved present (by simp))
  | stored p own value there cells =>
    rw [cells] at present
    rcases progress_cases present with ⟨_, before⟩ | ⟨_, cell, was, now⟩
    · exact old before
    · rw [there] at was
      cases was
      cases now
  | committed p own value number there cells =>
    rw [cells] at present
    rcases progress_cases present with ⟨_, before⟩ | ⟨_, cell, was, now⟩
    · exact old before
    · rw [there] at was
      cases was
      cases now
  | looked _ _ _ _ cells => exact old (cells ▸ present)
  | read _ _ _ _ _ cells => exact old (cells ▸ present)
  | cleared _ own value number there cells =>
    rw [cells] at present
    rcases progress_cases present with ⟨_, before⟩ | ⟨rfl, cell, was, now⟩
    · exact old before
    · rw [there] at was
      cases was
      cases now
      exact ⟨t.log.length, by simp [entries, State.cellOf]⟩
  | advanced _ cells => exact old (cells ▸ present)

omit [DecidableEq ι] in
theorem Chronicled.written_step (chronicled : Chronicled t) (after : Inv q)
    (order : q.buffer.order = t.queue.buffer.order) (chronicle : Chronicle t.queue q thread accesses)
    {i : Nat} {cell : Cell ι α} (present : q.cells[i]? = some cell) (written : cell.stage ≠ .reserved) :
    Wrote (t.log ++ entries thread (t.queue.cellOf thread) accesses) q.buffer.capacity i cell.owner cell.node := by
  have lap : q.buffer.capacity = t.queue.buffer.capacity := by
    rw [CircularBuffer.capacity, CircularBuffer.capacity, order]
  rw [lap]
  have old {earlier : Cell ι α} (before : t.queue.cells[i]? = some earlier) (already : earlier.stage ≠ .reserved)
      (owner : cell.owner = earlier.owner) (node : cell.node = earlier.node) :
      Wrote (t.log ++ entries thread (t.queue.cellOf thread) accesses) t.queue.buffer.capacity i cell.owner
        cell.node := by
    rw [owner, node]
    exact (chronicled.written i earlier before already).append _
  cases chronicle with
  | quiet _ _ cells => exact old (cells ▸ present) written rfl rfl
  | reserved p own cells =>
    rw [cells] at present
    exact old (before_reserved present written) written rfl rfl
  | stored p own value there cells consumed =>
    have within := after.ring.within
    have inside := (List.getElem?_eq_some_iff.mp present).1
    rw [cells] at present
    rcases progress_cases present with ⟨_, before⟩ | ⟨rfl, earlier, was, rfl⟩
    · exact old before written rfl rfl
    · rw [there] at was
      cases was
      refine ⟨t.log.length, by simp [entries, State.cellOf, Cell.progress], fun reused => ?_⟩
      -- the reservation of this node one lap ago is consumed
      have popped : q.popped = t.queue.popped := congrArg List.length consumed
      have past : t.queue.ticket p - t.queue.buffer.capacity < t.queue.consumed.length := by
        have positive := t.queue.buffer.capacity_pos
        rw [lap, popped, State.popped] at within
        omega
      obtain ⟨owner, node, gone⟩ := chronicled.inv.past _ _ (List.getElem?_eq_getElem past)
      have same : node = own := by
        have first := chronicled.inv.ring.nodes _ _ gone
        have second := chronicled.inv.ring.nodes _ _ there
        rw [← chronicled.inv.ring.cyclic.period, Nat.sub_add_cancel reused] at first
        exact first.trans second.symm
      subst same
      obtain ⟨k, cleared⟩ := chronicled.retired _ _ _ _ gone
      refine ⟨k, (List.getElem?_eq_some_iff.mp cleared).1, getElem?_append_some cleared _⟩
  | committed p own value number there cells =>
    rw [cells] at present
    rcases progress_cases present with ⟨_, before⟩ | ⟨rfl, earlier, was, rfl⟩
    · exact old before written rfl rfl
    · rw [there] at was
      cases was
      exact old there (by simp) rfl rfl
  | looked _ _ _ _ cells => exact old (cells ▸ present) written rfl rfl
  | read _ _ _ _ _ cells => exact old (cells ▸ present) written rfl rfl
  | cleared _ own value number there cells =>
    rw [cells] at present
    rcases progress_cases present with ⟨_, before⟩ | ⟨rfl, earlier, was, rfl⟩
    · exact old before written rfl rfl
    · rw [there] at was
      cases was
      exact old there (by simp) rfl rfl
  | advanced _ cells => exact old (cells ▸ present) written rfl rfl

omit [DecidableEq ι] in
theorem Chronicled.after_step (chronicled : Chronicled t) (chronicle : Chronicle t.queue q thread accesses)
    {i j : Nat} {first second : Entry ι} (before : i < j)
    (left : (t.log ++ entries thread (t.queue.cellOf thread) accesses)[i]? = some first)
    (right : (t.log ++ entries thread (t.queue.cellOf thread) accesses)[j]? = some second)
    (same : first.cell = second.cell) (located : first.node ≠ none) (there : second.node ≠ none)
    (consumer : first.event.thread = none) (plain : first.event.access.plain = true) : second.event.thread = none := by
  rcases log_cases right with right | ⟨_, new⟩
  · have inside := (List.getElem?_eq_some_iff.mp right).1
    rcases log_cases left with left | ⟨late, _⟩
    · exact chronicled.after i j first second before left right same located there consumer plain
    · omega
  · obtain ⟨access, among, rfl⟩ := mem_entries.mp new
    cases thread with
    | none => rfl
    | some p =>
      obtain ⟨⟨cell, present, opened⟩, _, _⟩ := chronicle.opened among there
      rcases log_cases left with left | ⟨_, other⟩
      · obtain ⟨node, at_⟩ := Option.ne_none_iff_exists'.mp located
        obtain ⟨earlier, was, _, _, closed⟩ := chronicled.placed first (List.mem_of_getElem? left) node at_
        rw [same, State.cellOf, present] at was
        cases was
        exact absurd opened (closed consumer plain)
      · obtain ⟨_, _, rfl⟩ := mem_entries.mp other
        cases consumer

omit [DecidableEq ι] [Inhabited α] in
/-- The plain accesses of the consumer are to the node that it holds. -/
theorem Chronicle.held {s : State ι α} (chronicle : Chronicle s q none accesses) {access : Access Location} {node : Nat}
    (among : access ∈ accesses) (plain : access.plain = true)
    (located : access.location.bind Location.node = some node) :
    s.consumer.holds = true ∧ ∃ cell, s.cells[s.popped]? = some cell ∧ cell.node = node := by
  cases chronicle with
  | quiet _ _ _ _ aside _ => cases (aside access among).symm.trans located
  | looked own cell present same =>
    rw [List.mem_singleton.mp among] at plain
    cases plain
  | read _ own payload id present _ _ held =>
    rw [List.mem_singleton.mp among] at located
    exact ⟨held, _, present, Option.some.inj located⟩
  | cleared _ own payload id present _ _ held =>
    refine ⟨held, _, present, ?_⟩
    simp only [List.mem_cons, List.not_mem_nil, or_false] at among
    rcases among with rfl | rfl <;> exact Option.some.inj located
  | advanced =>
    simp only [List.mem_cons, List.not_mem_nil, or_false] at among
    rcases among with rfl | rfl <;> cases plain

omit [DecidableEq ι] in
theorem Chronicled.handed_step (chronicled : Chronicled t) (chronicle : Chronicle t.queue q thread accesses)
    {i j : Nat} {first second : Entry ι} {node : Nat} (before : i < j)
    (left : (t.log ++ entries thread (t.queue.cellOf thread) accesses)[i]? = some first)
    (right : (t.log ++ entries thread (t.queue.cellOf thread) accesses)[j]? = some second)
    (located : first.node = some node) (there : second.node = some node) (producer : first.event.thread ≠ none)
    (consumer : second.event.thread = none) (plain : second.event.access.plain = true) :
    HappensBefore ((t.log ++ entries thread (t.queue.cellOf thread) accesses).map Entry.event) i j := by
  rcases log_cases right with old | ⟨late, new⟩
  · have inside := (List.getElem?_eq_some_iff.mp old).1
    rcases log_cases left with left | ⟨late, _⟩
    · rw [List.map_append]
      exact (chronicled.handed i j first second node before left old located there producer consumer plain).append _
    · omega
  · obtain ⟨access, among, rfl⟩ := mem_entries.mp new
    cases thread with
    | some p => cases consumer
    | none =>
      obtain ⟨holds, cell, head, own⟩ := chronicle.held among plain there
      rcases log_cases left with earlier | ⟨_, other⟩
      · obtain ⟨was, present, same, _, _⟩ := chronicled.placed first (List.mem_of_getElem? earlier) node located
        have upTo : first.cell ≤ t.queue.popped := by
          by_contra ahead
          have inside := (List.getElem?_eq_some_iff.mp present).1
          have within := chronicled.inv.ring.within
          have apart := chronicled.inv.lap_apart head present (own.trans same.symm) (by omega)
          omega
        have passed : first.cell < t.queue.popped ∨
            first.cell = t.queue.popped ∧ t.queue.consumer.holds = true :=
          (Nat.lt_or_eq_of_le upTo).imp_right fun equal => ⟨equal, holds⟩
        have located' : first.node ≠ none := by simp [located]
        obtain ⟨m, other, at_, by_, ordered⟩ := chronicled.seen i first earlier producer located' passed
        have inside := (List.getElem?_eq_some_iff.mp at_).1
        have known : HappensBefore ((t.log ++ entries none (t.queue.cellOf none) accesses).map Entry.event) i m := by
          rw [List.map_append]
          exact ordered.append _
        refine known.trans (.program other.event _ (by omega) ?_ (event_at right) by_)
        exact event_at (getElem?_append_some at_ _)
      · obtain ⟨_, _, rfl⟩ := mem_entries.mp other
        exact absurd rfl producer

theorem Chronicled.step (chronicled : Chronicled t) {u : Traced ι α} {action : Action ι α} (bounded : t.Bounded action)
    (taken : t.step action = some u) : Chronicled u := by
  obtain ⟨q, stepped, rfl⟩ := Option.map_eq_some_iff.mp taken
  have inv := chronicled.inv.step action bounded stepped
  have order := step_order chronicled.inv stepped
  have chronicle := chronicled.inv.chronicle stepped
  exact {
    inv
    occurs := by
      intro entry member
      rcases List.mem_append.mp member with old | new
      · exact chronicled.occurs entry old
      · obtain ⟨access, among, rfl⟩ := mem_entries.mp new
        exact accesses_occur t.queue action among
    placed := chronicled.placed_step chronicle
    seen := fun _ _ => chronicled.seen_step chronicle
    published := fun _ _ _ _ _ => chronicled.published_step chronicle
    written := fun _ _ => chronicled.written_step inv order chronicle
    retired := fun _ _ _ _ => chronicled.retired_step chronicle
    after := fun _ _ _ _ => chronicled.after_step chronicle
    handed := fun _ _ _ _ _ => chronicled.handed_step chronicle }

omit [DecidableEq ι] in
/-- The only release of the consumer is the fence before its `fetch_add` on `head`, and nobody acquires `head`. -/
theorem Chronicled.unordered (chronicled : Chronicled t) {i j : Nat} {first second : Event (Option ι) Location}
    (left : t.events[i]? = some first) (right : t.events[j]? = some second) (consumer : first.thread = none)
    (producer : second.thread ≠ none) : ¬ HappensBefore t.events i j := by
  intro before
  have may {k : Nat} {event : Event (Option ι) Location} (present : t.events[k]? = some event) :
      Mpsc.occurs event.thread event.access = true := by
    obtain ⟨entry, there, rfl⟩ := entry_at present
    exact chronicled.occurs entry (List.mem_of_getElem? there)
  refine producer (before.confined (fun event => event.thread = none) ?_ ?_ left right consumer)
  · intro first second same stays
    exact same.symm.trans stays
  · intro x r store source load acquired first second sync at_ _ inside
    exfalso
    have released : x = .head := by
      cases sync.releases with
      | operation event order same present stores releases =>
        subst same
        rw [at_] at present
        cases present
        have allowed := may at_
        rw [inside] at allowed
        obtain ⟨_, rfl⟩ := consumer_stores allowed stores
        cases releases
      | fence fence event fenced order _ there _ _ present stores thread =>
        rw [at_] at there
        cases there
        have allowed := may present
        rw [← thread, inside] at allowed
        exact (consumer_stores allowed stores).1
    subst released
    cases sync.acquires with
    | operation event order _ present loads acquires =>
      cases head_loads (may present) loads
      cases acquires
    | fence event last order fenced _ _ _ there fence acquires _ =>
      have allowed := may there
      rw [fence] at allowed
      cases fences_release allowed
      cases acquires

omit [DecidableEq ι] [Inhabited α] in
/-- Plain accesses and those they conflict with are to the nodes. -/
theorem conflict_node {first second : Event (Option ι) Location} {x : Location} (conflict : Conflict first second x)
    (left : occurs first.thread first.access = true) (right : occurs second.thread second.access = true) :
    ∃ node, x.node = some node := by
  have plain {event : Event (Option ι) Location} (may : occurs event.thread event.access = true)
      (located : event.access.location = some x) (plain : event.access.plain = true) : ∃ node, x.node = some node := by
    obtain ⟨thread, access⟩ := event
    cases access <;> cases plain <;> cases located <;> cases thread <;> cases x <;>
      first | exact ⟨_, rfl⟩ | cases may
  rcases conflict.plain with here | there
  · exact plain left conflict.left here
  · exact plain right conflict.right there

omit [DecidableEq ι] [Inhabited α] in
/-- The loads of `id` conflict with nothing: only the consumer writes it as plain memory. -/
theorem conflict_plain {first second : Event (Option ι) Location} {x : Location} (conflict : Conflict first second x)
    (left : occurs first.thread first.access = true) (right : occurs second.thread second.access = true)
    (consumer : first.thread = none) : first.access.plain = true := by
  obtain ⟨node, located⟩ := conflict_node conflict left right
  rcases conflict.plain with here | there
  · exact here
  · obtain ⟨p, producer⟩ := Option.ne_none_iff_exists'.mp fun same => conflict.threads (consumer.trans same.symm)
    rw [consumer] at left
    rw [producer] at right
    have written : x = .data node := by
      cases access : second.access <;> rw [access] at there right <;> cases there
      · cases x <;> cases right
      · have same := conflict.right
        rw [access] at same
        cases same
        cases x <;> first | exact congrArg Location.data (Option.some.inj located) | cases right
    have here := conflict.left
    rw [written] at here
    cases access : first.access <;> rw [access] at here left <;> cases here <;> first | rfl | cases left

omit [DecidableEq ι] in
theorem Chronicled.ordered (chronicled : Chronicled t) {i j : Nat} {first second : Entry ι} {x : Location}
    (before : i < j) (left : t.log[i]? = some first) (right : t.log[j]? = some second)
    (conflict : Conflict first.event second.event x) (consumer : second.event.thread = none) :
    HappensBefore t.events i j := by
  have here := chronicled.occurs first (List.mem_of_getElem? left)
  have there := chronicled.occurs second (List.mem_of_getElem? right)
  obtain ⟨node, located⟩ := conflict_node conflict here there
  have plain := conflict_plain conflict.symm there here consumer
  have producer : first.event.thread ≠ none := fun same => conflict.threads (same.trans consumer.symm)
  apply chronicled.handed i j first second node before left right _ _ producer consumer plain
  · rw [Entry.node, conflict.left]
    exact located
  · rw [Entry.node, conflict.right]
    exact located

omit [DecidableEq ι] in
theorem Chronicled.reused (chronicled : Chronicled t) {i j : Nat} {first second : Entry ι} {x : Location}
    (before : i < j) (left : t.log[i]? = some first) (right : t.log[j]? = some second)
    (conflict : Conflict first.event second.event x) (unordered : ¬ HappensBefore t.events i j) :
    ∃ (i : Nat) (cell : Cell ι α), t.queue.buffer.capacity ≤ i ∧ t.queue.cells[i]? = some cell ∧
      cell.stage ≠ .reserved := by
  have here := chronicled.occurs first (List.mem_of_getElem? left)
  have there := chronicled.occurs second (List.mem_of_getElem? right)
  obtain ⟨node, located⟩ := conflict_node conflict here there
  have at_ : first.node = some node := by rw [Entry.node, conflict.left]; exact located
  have also : second.node = some node := by rw [Entry.node, conflict.right]; exact located
  obtain ⟨cell, present, own, owner, closed⟩ := chronicled.placed first (List.mem_of_getElem? left) node at_
  obtain ⟨other, found, same, other_owner, _⟩ := chronicled.placed second (List.mem_of_getElem? right) node also
  have producer : second.event.thread ≠ none := fun consumer =>
    unordered (chronicled.ordered before left right conflict consumer)
  obtain ⟨p, by_⟩ := Option.ne_none_iff_exists'.mp producer
  have written : cell.stage ≠ .reserved := by
    cases thread : first.event.thread with
    | some q => exact (owner q thread).2
    | none =>
      intro reserved
      apply closed thread (conflict_plain conflict here there thread)
      rw [reserved]
      trivial
  rcases Nat.lt_trichotomy first.cell second.cell with less | equal | more
  · have apart := chronicled.inv.lap_apart present found (own.trans same.symm) less
    exact ⟨second.cell, other, by omega, found, (other_owner p by_).2⟩
  · -- within one reservation the owner is done before the consumer begins
    exfalso
    cases thread : first.event.thread with
    | some q =>
      rw [equal, found] at present
      cases present
      apply conflict.threads
      rw [thread, by_, ← (owner q thread).1, (other_owner p by_).1]
    | none =>
      apply producer
      exact chronicled.after i j first second before left right equal (by simp [at_]) (by simp [also]) thread
        (conflict_plain conflict here there thread)
  · have apart := chronicled.inv.lap_apart found present (same.trans own.symm) more
    exact ⟨first.cell, cell, by omega, present, written⟩

variable {order : Nat}

end Kept

end Hvnetpp.Mpsc
