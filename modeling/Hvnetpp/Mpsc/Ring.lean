import Hvnetpp.Machine.Window
import Hvnetpp.Mpsc.Model

namespace Hvnetpp.Mpsc

open Machine

def slotOf (order i : Nat) : Nat := (BitVec.ofNat 32 (nodeSize * i)).toNat &&& (2 ^ order - 1)

theorem size_split {order : Nat} (lower : 6 ≤ order) : 2 ^ order = nodeSize * 2 ^ (order - 6) := by
  have sum : order = 6 + (order - 6) := by omega
  calc 2 ^ order = 2 ^ (6 + (order - 6)) := congrArg (2 ^ ·) sum
    _ = nodeSize * 2 ^ (order - 6) := by rw [Nat.pow_add]; rfl

theorem slotOf_eq {order : Nat} (lower : 6 ≤ order) (upper : order ≤ 31) (i : Nat) :
    slotOf order i = nodeSize * (i % 2 ^ (order - 6)) := by
  have divides : 2 ^ order ∣ 2 ^ 32 := Nat.pow_dvd_pow 2 (by omega)
  rw [slotOf, Nat.and_two_pow_sub_one_eq_mod, BitVec.toNat_ofNat, Nat.mod_mod_of_dvd _ divides,
    size_split lower, Nat.mul_mod_mul_left]

theorem slotOf_inside {order : Nat} (lower : 6 ≤ order) (upper : order ≤ 31) (i : Nat) :
    nodeSize ∣ slotOf order i ∧ slotOf order i < 2 ^ order := by
  rw [slotOf_eq lower upper, size_split lower]
  refine ⟨Nat.dvd_mul_right _ _, ?_⟩
  exact Nat.mul_lt_mul_of_pos_left (Nat.mod_lt _ (Nat.pow_pos (by decide))) (by decide)

theorem slotOf_cyclic {order : Nat} (lower : 6 ≤ order) (upper : order ≤ 31) :
    Cyclic (2 ^ (order - 6)) (slotOf order) := by
  constructor
  · intro i
    rw [slotOf_eq lower upper, slotOf_eq lower upper, Nat.add_mod_right]
  · intro i j less near equal
    rw [slotOf_eq lower upper, slotOf_eq lower upper] at equal
    have same : j % 2 ^ (order - 6) = i % 2 ^ (order - 6) :=
      (Nat.eq_of_mul_eq_mul_left (by decide) equal).symm
    have lap : 2 ^ (order - 6) ∣ j - i :=
      Nat.dvd_of_mod_eq_zero (Nat.sub_mod_eq_zero_of_mod_eq same)
    have := Nat.le_of_dvd (by omega) lap
    omega

variable {ι α : Type}

def CircularBuffer.capacity (buffer : CircularBuffer α) : Nat := 2 ^ (buffer.order - 6)

theorem CircularBuffer.capacity_pos (buffer : CircularBuffer α) : 0 < buffer.capacity :=
  Nat.pow_pos (by decide)

section Ring

variable [Inhabited α]

def Stage.node : Stage α → Node α
  | .reserved | .retired _ => .zeroed
  | .written payload => ⟨payload, 0⟩
  | .committed payload id => ⟨payload, id⟩

/-- The buffer holds the lap of the reservation log that starts at `popped`: the counters are the two ends
    of the lap modulo `2^32`, at most one lap is outstanding, and every free node is zero. -/
structure Ring (buffer : CircularBuffer α) (cells : List (Cell ι α)) (popped : Nat) : Prop where
  lower : 6 ≤ buffer.order
  upper : buffer.order ≤ 31
  valid : buffer.valid = true
  head : buffer.head = BitVec.ofNat 32 (nodeSize * popped)
  tail : buffer.tail = BitVec.ofNat 32 (nodeSize * cells.length)
  started : popped ≤ cells.length
  within : cells.length ≤ popped + buffer.capacity
  memory : Holds buffer.capacity (slotOf buffer.order) (fun cell => cell.stage.node) .zeroed popped cells
    buffer.data
  nodes : ∀ i cell, cells[i]? = some cell → cell.node = slotOf buffer.order i

variable {buffer : CircularBuffer α} {cells : List (Cell ι α)} {popped : Nat}

theorem Ring.create {order : Nat} (lower : 6 ≤ order) (upper : order ≤ 31) :
    Ring (CircularBuffer.create α order true) ([] : List (Cell ι α)) 0 where
  lower := lower
  upper := upper
  valid := rfl
  head := rfl
  tail := rfl
  started := Nat.le_refl 0
  within := Nat.zero_le _
  memory := Holds.start _ _ _ _
  nodes := by intro i cell present; simp at present

theorem Ring.size_eq (ring : Ring buffer cells popped) : buffer.size = nodeSize * buffer.capacity :=
  size_split ring.lower

theorem Ring.size_le (ring : Ring buffer cells popped) : buffer.size ≤ 2 ^ 31 :=
  Nat.pow_le_pow_right (by decide) ring.upper

theorem Ring.cyclic (ring : Ring buffer cells popped) :
    Cyclic buffer.capacity (slotOf buffer.order) := slotOf_cyclic ring.lower ring.upper

theorem Ring.pointer (ring : Ring buffer cells popped) (i : Nat) :
    buffer.getPointer (BitVec.ofNat 32 (nodeSize * i)) = some (slotOf buffer.order i) := by
  simp only [CircularBuffer.getPointer, ring.valid, if_true]
  rfl

theorem Ring.headPtr (ring : Ring buffer cells popped) :
    buffer.headPtr = some (slotOf buffer.order popped) := by
  rw [CircularBuffer.headPtr, ring.head]
  exact ring.pointer popped

/-- The counters agree only when nothing is outstanding: a full lap is shorter than `2^32`. -/
theorem Ring.empty_iff (ring : Ring buffer cells popped) :
    buffer.head = buffer.tail ↔ popped = cells.length := by
  have size := ring.size_le
  have split := ring.size_eq
  have within := ring.within
  have started := ring.started
  rw [ring.head, ring.tail]
  constructor
  · intro equal
    have values := congrArg BitVec.toNat equal
    simp only [BitVec.toNat_ofNat, nodeSize] at values split
    omega
  · intro equal
    rw [equal]

theorem Ring.isFull_iff (ring : Ring buffer cells popped) :
    buffer.isFull buffer.head buffer.tail = true ↔ cells.length = popped + buffer.capacity := by
  have size := ring.size_le
  have split := ring.size_eq
  have within := ring.within
  have started := ring.started
  have positive := buffer.capacity_pos
  rw [CircularBuffer.isFull, ring.head, ring.tail]
  simp only [BitVec.ult, decide_eq_true_eq, BitVec.toNat_sub, BitVec.toNat_ofNat, nodeSize] at *
  omega

/-- What one attempt of `reserve` knows of `head`: an older value, at most a lap behind the reservations
    of that moment. -/
def Stale (buffer : CircularBuffer α) (popped count seen : Nat) (r : BitVec 32) : Prop :=
  ∃ h, r = BitVec.ofNat 32 (nodeSize * h) ∧ h ≤ popped ∧ seen ≤ h + buffer.capacity ∧ seen ≤ count

/-- A passed overflow check still holds at the exchange, although `r` may be laps old. -/
theorem Ring.room (ring : Ring buffer cells popped) {seen : Nat} {r : BitVec 32}
    (stale : Stale buffer popped cells.length seen r) (checked : buffer.isFull r buffer.tail = false)
    (bounded : nodeSize * (cells.length - seen) < 2 ^ 32 - buffer.size) :
    cells.length < popped + buffer.capacity := by
  obtain ⟨h, rfl, older, near, counted⟩ := stale
  have size := ring.size_le
  have split := ring.size_eq
  have started := ring.started
  have positive := buffer.capacity_pos
  rw [CircularBuffer.isFull, ring.tail] at checked
  simp only [BitVec.ult, decide_eq_false_iff_not, BitVec.toNat_sub, BitVec.toNat_ofNat, nodeSize] at *
  omega

theorem Ring.reserve (ring : Ring buffer cells popped) (room : cells.length < popped + buffer.capacity)
    (owner : ι) :
    Ring { buffer with tail := buffer.tail + BitVec.ofNat 32 nodeSize }
      (cells ++ [⟨owner, slotOf buffer.order cells.length, .reserved⟩]) popped where
  lower := ring.lower
  upper := ring.upper
  valid := ring.valid
  head := ring.head
  tail := by
    simp only [ring.tail, List.length_append, List.length_singleton, Nat.mul_add, Nat.mul_one]
    exact (BitVec.ofNat_add _ _).symm
  started := by
    have := ring.started
    simp only [List.length_append, List.length_singleton]
    omega
  within := by
    simp only [List.length_append, List.length_singleton]
    exact room
  memory := ring.memory.append _ rfl
  nodes := by
    intro i cell present
    by_cases inside : i < cells.length
    · rw [List.getElem?_append_left inside] at present
      exact ring.nodes i cell present
    · have last : i = cells.length := by
        have := (List.getElem?_eq_some_iff.mp present).1
        simp at this
        omega
      subst last
      simp at present
      subst cell
      rfl

theorem Ring.progress (ring : Ring buffer cells popped) {i : Nat} {cell : Cell ι α}
    (present : cells[i]? = some cell) (outstanding : popped ≤ i) (change : Stage α → Stage α) :
    Ring { buffer with data := Function.update buffer.data cell.node (change cell.stage).node }
      (cells.modify i (Cell.progress change)) popped where
  lower := ring.lower
  upper := ring.upper
  valid := ring.valid
  head := ring.head
  tail := by rw [List.length_modify]; exact ring.tail
  started := by rw [List.length_modify]; exact ring.started
  within := by rw [List.length_modify]; exact ring.within
  memory := by
    have inside := (List.getElem?_eq_some_iff.mp present).1
    rw [ring.nodes i cell present]
    refine ring.memory.set ring.cyclic outstanding (Nat.lt_of_lt_of_le inside ring.within) inside _ _ ?_
    intro entry found
    rw [present] at found
    cases found
    rfl
  nodes := by
    intro j other found
    rw [List.getElem?_modify] at found
    obtain ⟨before, was, rfl⟩ := Option.map_eq_some_iff.mp found
    have same := ring.nodes j before was
    split <;> exact same

theorem Ring.advance (ring : Ring buffer cells popped) {cell : Cell ι α} {payload : α}
    (present : cells[popped]? = some cell) (retired : cell.stage = .retired payload) :
    Ring { buffer with head := buffer.head + BitVec.ofNat 32 nodeSize } cells (popped + 1) where
  lower := ring.lower
  upper := ring.upper
  valid := ring.valid
  head := by
    simp only [ring.head, Nat.mul_add, Nat.mul_one]
    exact (BitVec.ofNat_add _ _).symm
  tail := ring.tail
  started := (List.getElem?_eq_some_iff.mp present).1
  within := Nat.le_trans ring.within (by simp only [CircularBuffer.capacity]; omega)
  memory := by
    refine ring.memory.advance ring.cyclic ring.within buffer.capacity_pos ?_
    intro entry found
    rw [present] at found
    cases found
    rw [retired]
    rfl
  nodes := ring.nodes

theorem Ring.node_eq (ring : Ring buffer cells popped) {i : Nat} {cell : Cell ι α}
    (present : cells[i]? = some cell) (outstanding : popped ≤ i) :
    buffer.data cell.node = cell.stage.node := by
  have inside := (List.getElem?_eq_some_iff.mp present).1
  rw [ring.nodes i cell present]
  exact ring.memory.entry outstanding (Nat.lt_of_lt_of_le inside ring.within) present

theorem Ring.lap (ring : Ring buffer cells popped) {node : Nat} (aligned : nodeSize ∣ node)
    (inside : node < buffer.size) :
    ∃ i, popped ≤ i ∧ i < popped + buffer.capacity ∧ slotOf buffer.order i = node := by
  obtain ⟨k, rfl⟩ := aligned
  have positive := buffer.capacity_pos
  rw [ring.size_eq] at inside
  have less : k < buffer.capacity := Nat.lt_of_mul_lt_mul_left inside
  have first := Nat.mod_lt popped positive
  refine ⟨popped + (k + buffer.capacity - popped % buffer.capacity) % buffer.capacity, by omega, ?_, ?_⟩
  · have := Nat.mod_lt (k + buffer.capacity - popped % buffer.capacity) positive
    omega
  · have lap : popped % buffer.capacity + (k + buffer.capacity - popped % buffer.capacity) =
        k + buffer.capacity := by omega
    rw [slotOf_eq ring.lower ring.upper]
    change nodeSize * (_ % buffer.capacity) = _
    rw [Nat.add_mod_mod, ← Nat.mod_add_mod, lap, Nat.add_mod_right, Nat.mod_eq_of_lt less]

theorem Ring.outstanding_nodup (ring : Ring buffer cells popped) :
    ((cells.drop popped).map Cell.node).Nodup := by
  refine List.pairwise_iff_getElem.mpr ?_
  intro i j hi hj less equal
  simp only [List.length_map, List.length_drop] at hi hj
  simp only [List.getElem_map, List.getElem_drop] at equal
  have within := ring.within
  rw [ring.nodes (popped + i) _ (List.getElem?_eq_getElem (by omega)),
    ring.nodes (popped + j) _ (List.getElem?_eq_getElem (by omega))] at equal
  exact ring.cyclic.distinct (popped + i) (popped + j) (by omega) (by omega) equal

end Ring

end Hvnetpp.Mpsc
