import Hvnetpp.Buffer.Refinement

namespace Hvnetpp.Buffer

open Machine

variable {b : Buffer} {contents data : List UInt8} {len : Nat}

@[simp] theorem check_buffer (b : Buffer) (holds : Prop) [Decidable holds] :
    (b.check holds).buffer = b.buffer := by
  unfold check
  split <;> rfl

/-- The size of the vector goes from that of `b` to that of `c`: never down, and up only for the sake of a
    request for which `demand` bytes have to fit. -/
structure Grows (b c : Buffer) (demand : Nat) : Prop where
  grows : b.buffer.length ≤ c.buffer.length
  bounded : c.buffer.length ≤ max b.buffer.length (2 * demand + kCheapPrepend)

theorem Grows.same {c : Buffer} (same : c.buffer.length = b.buffer.length) (demand : Nat) : Grows b c demand where
  grows := Nat.le_of_eq same.symm
  bounded := same ▸ Nat.le_max_left _ _

/-- `makeSpace` resizes only a vector that is too small for the prefix, the readable bytes and the new ones. So
    the writer index, from which the new size is counted, is not far beyond the demand. -/
theorem Carries.makeSpace_grows (carries : Carries b contents) (short : b.writableBytes < len) :
    Grows b (b.makeSpace len) (b.readableBytes + len) := by
  have ordered := carries.ordered
  have bounded := carries.bounded
  unfold writableBytes at short
  unfold Buffer.makeSpace
  split
  · rename_i less
    simp only [writableBytes, prependableBytes] at less
    have size : (b.resize (b.writerIndex + len)).buffer.length = b.writerIndex + len := by
      simp only [Buffer.resize, List.length_append, List.length_take, List.length_replicate]
      omega
    constructor
    · rw [size]
      omega
    · rw [size]
      unfold readableBytes
      omega
  · rename_i enough
    simp only [writableBytes, prependableBytes] at enough
    apply Grows.same
    have count : b.readable.length = b.readableBytes := by rw [carries.readable, carries.length]
    simp only [check_buffer]
    have fits : kCheapPrepend + b.readable.length ≤ b.buffer.length := by
      rw [count]
      unfold readableBytes
      omega
    simp only [Buffer.check]
    split <;> exact overwrite_length fits

theorem Carries.ensureWritableBytes_grows (carries : Carries b contents) (len : Nat) :
    Grows b (b.ensureWritableBytes len) (b.readableBytes + len) := by
  unfold Buffer.ensureWritableBytes
  split
  · rename_i short
    have grows := carries.makeSpace_grows short
    constructor
    · rw [check_buffer]
      exact grows.grows
    · rw [check_buffer]
      exact grows.bounded
  · exact .same (by rw [check_buffer]) _

theorem fill_length (fits : data.length ≤ b.writableBytes) (bounded : b.writerIndex ≤ b.buffer.length) :
    (b.fill data).buffer.length = b.buffer.length := by
  unfold writableBytes at fits
  exact overwrite_length (by omega)

theorem Carries.append_grows (carries : Carries b contents) (data : List UInt8) :
    Grows b (b.append data) (b.readableBytes + data.length) := by
  have grows := carries.ensureWritableBytes_grows data.length
  obtain ⟨carries, enough⟩ := carries.ensureWritableBytes data.length
  have size : (b.append data).buffer.length = (b.ensureWritableBytes data.length).buffer.length := by
    simp only [Buffer.append, Buffer.hasWritten, check_buffer]
    exact fill_length enough carries.bounded
  constructor
  · rw [size]
    exact grows.grows
  · rw [size]
    exact grows.bounded

theorem filled_length (more : b.writableBytes < data.length) (bounded : b.writerIndex ≤ b.buffer.length) :
    (b.filled data).buffer.length = b.buffer.length :=
  fill_length (Nat.le_of_eq (List.length_take_of_le (by omega))) bounded

/-- The call of `ensureWritableBytes` in an operation: the buffer it is made on, and its argument. -/
def Op.request (b : Buffer) : Op → Option (Buffer × Nat)
  | .append data => some (b, data.length)
  | .ensureWritableBytes len => some (b, len)
  | .readFd data =>
    if data.length ≤ b.writableBytes then none else some (b.filled data, (data.drop b.writableBytes).length)
  | _ => none

/-- `readableBytes() + len` at the operation's request, if it makes one. -/
def Op.demands (b : Buffer) (op : Op) : List Nat :=
  ((op.request b).map fun request => request.1.readableBytes + request.2).toList

def largest (demands : List Nat) : Nat := demands.foldr max 0

@[simp] theorem largest_single (demand : Nat) : largest [demand] = demand := Nat.max_zero demand

theorem largest_le {demands : List Nat} {bound : Nat} (all : ∀ demand ∈ demands, demand ≤ bound) :
    largest demands ≤ bound := by
  induction demands with
  | nil => exact Nat.zero_le _
  | cons first rest held =>
    exact Nat.max_le.mpr ⟨all first List.mem_cons_self, held fun demand mem => all demand (List.mem_cons_of_mem _ mem)⟩

theorem Carries.readFd_grows (carries : Carries b contents) (data : List UInt8) :
    Grows b (b.readFd data) (largest ((Op.readFd data).demands b)) := by
  rw [readFd_eq]
  by_cases fits : data.length ≤ b.writableBytes
  · rw [if_pos fits]
    apply Grows.same
    exact fill_length fits carries.bounded
  · rw [if_neg fits]
    have more : b.writableBytes < data.length := Nat.not_le.mp fits
    have grows := (carries.filled more).append_grows (data.drop b.writableBytes)
    have size := filled_length more carries.bounded
    have asked : largest ((Op.readFd data).demands b) =
        (b.filled data).readableBytes + (data.drop b.writableBytes).length := by
      simp [Op.demands, Op.request, fits]
    rw [asked]
    constructor
    · rw [← size]
      exact grows.grows
    · rw [← size]
      exact grows.bounded

theorem Carries.apply_grows (carries : Carries b contents) {op : Op} (legal : op.Legal b) :
    Grows b (op.apply b) (largest (op.demands b)) := by
  have bounded := carries.bounded
  cases op with
  | append data =>
    show Grows b (b.append data) (largest [b.readableBytes + data.length])
    rw [largest_single]
    exact carries.append_grows data
  | ensureWritableBytes len =>
    show Grows b (b.ensureWritableBytes len) (largest [b.readableBytes + len])
    rw [largest_single]
    exact carries.ensureWritableBytes_grows len
  | readFd data => exact carries.readFd_grows data
  | retrieve len =>
    apply Grows.same
    simp only [Op.apply, Buffer.retrieve]
    split <;> simp only [Buffer.retrieveAll, check_buffer]
  | retrieveAll =>
    apply Grows.same
    rfl
  | retrieveAsString len =>
    apply Grows.same
    simp only [Op.apply, Buffer.retrieveAsString, Buffer.retrieve]
    split <;> simp only [Buffer.retrieveAll, check_buffer]
  | prepend data =>
    apply Grows.same
    have le : data.length ≤ b.readerIndex := legal
    have ordered := carries.ordered
    simp only [Op.apply, Buffer.prepend, check_buffer, check_readerIndex]
    exact overwrite_length (by omega)
  | write data len =>
    apply Grows.same
    simp only [Op.apply, Buffer.hasWritten, check_buffer]
    exact fill_length legal.2 bounded
  | readFdError => exact .same rfl _

/-- A buffer and the demands of all the `ensureWritableBytes` requests made on it, the latest first. -/
structure Growth where
  buffer : Buffer
  demands : List Nat
  deriving DecidableEq, Repr

def Growth.initial (initialSize : Nat) : Growth := { buffer := create initialSize, demands := [] }

def Growth.step (g : Growth) (op : Op) : Option Growth :=
  some { buffer := op.apply g.buffer, demands := op.demands g.buffer ++ g.demands }

def Growth.Legal (g : Growth) (op : Op) : Prop := op.Legal g.buffer

instance (g : Growth) (op : Op) : Decidable (g.Legal op) := inferInstanceAs (Decidable (op.Legal g.buffer))

theorem largest_append (first second : List Nat) :
    largest (first ++ second) = max (largest first) (largest second) := by
  induction first with
  | nil => exact (Nat.zero_max _).symm
  | cons demand rest held =>
    show max demand (largest (rest ++ second)) = max (max demand (largest rest)) (largest second)
    rw [held, Nat.max_assoc]

/-- What a run keeps: the buffer is well formed and its size answers to the demands. -/
structure Growth.Within (initialSize : Nat) (g : Growth) : Prop where
  formed : ∃ contents, Carries g.buffer contents
  bounded : g.buffer.buffer.length ≤ max (kCheapPrepend + initialSize) (2 * largest g.demands + kCheapPrepend)

theorem Growth.Within.step {initialSize : Nat} {g h : Growth} (within : g.Within initialSize) {op : Op}
    (legal : g.Legal op) (taken : g.step op = some h) :
    h.Within initialSize ∧ g.buffer.buffer.length ≤ h.buffer.buffer.length := by
  obtain ⟨contents, carries⟩ := within.formed
  have grows := carries.apply_grows legal
  have before := within.bounded
  have after := grows.bounded
  cases taken
  refine ⟨⟨⟨_, carries.apply legal⟩, ?_⟩, grows.grows⟩
  simp only [largest_append]
  omega

theorem Growth.Within.initial (initialSize : Nat) : (Growth.initial initialSize).Within initialSize where
  formed := ⟨[], Carries.create initialSize⟩
  bounded := by
    simp only [Growth.initial, create, List.length_replicate]
    exact Nat.le_max_left _ _

/-- The vector never shrinks, and its size is bounded by twice the largest demand ever made. -/
theorem growth_bounded_by_demand {initialSize : Nat} {g : Growth}
    (run : Reaches Growth.step Growth.Legal (Growth.initial initialSize) g) :
    g.buffer.buffer.length ≤ max (kCheapPrepend + initialSize) (2 * largest g.demands + kCheapPrepend) ∧
    (∀ bound, (∀ demand ∈ g.demands, demand ≤ bound) →
      g.buffer.buffer.length ≤ max (kCheapPrepend + initialSize) (2 * bound + kCheapPrepend)) ∧
    ∀ h, Reaches Growth.step Growth.Legal g h → g.buffer.buffer.length ≤ h.buffer.buffer.length := by
  have within : g.Within initialSize :=
    run.keeps (Growth.Within.initial initialSize) fun _ _ _ held legal taken => (held.step legal taken).1
  have bounded := within.bounded
  refine ⟨bounded, ?_, ?_⟩
  · intro bound all
    have le := largest_le all
    omega
  · intro h later
    apply later.relates (Growth.Within initialSize) within
    · exact fun _ => Nat.le_refl _
    · exact fun _ _ _ => Nat.le_trans
    · exact fun _ _ _ held legal taken => held.step legal taken

/-- Six bytes are asked for behind three readable ones that stand after five retrieved: the new size is counted
    from the writer index, and the next request compacts. -/
theorem growth_bounded_by_demand_retrieved : ∃ g : Growth, g.buffer.buffer.length = 22 ∧ g.demands = [9, 9, 8] ∧
    g.buffer.buffer.length ≤ max (kCheapPrepend + 8) (2 * largest g.demands + kCheapPrepend) := by
  have ran : (exec (guarded Growth.step Growth.Legal) (Growth.initial 8)
      [.append [1, 2, 3, 4, 5, 6, 7, 8], .retrieve 5, .append [9, 10, 11, 12, 13, 14], .retrieve 7,
        .ensureWritableBytes 7]).map
      (fun g => (g.buffer.buffer.length, g.demands)) = some (22, [9, 9, 8]) := by decide
  obtain ⟨g, reached, facts⟩ := Option.map_eq_some_iff.mp ran
  simp only [Prod.mk.injEq] at facts
  obtain ⟨size, demands⟩ := facts
  exact ⟨g, size, demands, (growth_bounded_by_demand (exec_guarded_reaches reached)).1⟩

end Hvnetpp.Buffer
