import Hvnetpp.Machine.Runs
import Hvnetpp.Buffer.Deque

namespace Hvnetpp.Buffer

open Machine

variable {b : Buffer} {contents data : List UInt8} {len : Nat}

theorem Carries.retrieveAll (carries : Carries b contents) : Carries b.retrieveAll [] :=
  ⟨carries.room, Nat.le_refl _, carries.room, segment_self, carries.sound⟩

theorem Carries.prepend (carries : Carries b contents) (le : data.length ≤ b.prependableBytes) :
    Carries (b.prepend data) (data ++ contents) := by
  have ordered := carries.ordered
  have bounded := carries.bounded
  unfold prependableBytes at le
  have size : (overwrite b.buffer (b.readerIndex - data.length) data).length = b.buffer.length :=
    overwrite_length (by omega)
  simp only [Buffer.prepend, check_of (show data.length ≤ b.prependableBytes from le)]
  refine ⟨?_, ?_, ?_, ?_, carries.sound⟩
  · exact size.symm ▸ carries.room
  · show b.readerIndex - data.length ≤ b.writerIndex
    omega
  · exact size.symm ▸ carries.bounded
  · rw [← carries.readable]
    exact segment_overwrite_before le carries.ordered carries.bounded

/-- The buffer in the middle of `readFd`, full, before it appends what has gone to `extrabuf`. -/
def filled (b : Buffer) (data : List UInt8) : Buffer :=
  { b.fill (data.take b.writableBytes) with writerIndex := b.buffer.length }

theorem readFd_eq (b : Buffer) (data : List UInt8) :
    b.readFd data =
      if data.length ≤ b.writableBytes then { b.fill data with writerIndex := b.writerIndex + data.length }
      else (b.filled data).append (data.drop b.writableBytes) := rfl

theorem Carries.filled (carries : Carries b contents) (more : b.writableBytes < data.length) :
    Carries (b.filled data) (contents ++ data.take b.writableBytes) := by
  have bounded := carries.bounded
  have taken : (data.take b.writableBytes).length = b.writableBytes := List.length_take_of_le (by omega)
  have whole : b.writerIndex + b.writableBytes = b.buffer.length := by
    unfold writableBytes
    omega
  have filled := carries.fill (data.take b.writableBytes) (by omega) (Nat.le_refl _)
  rw [List.take_length, taken, whole] at filled
  exact filled

/-- What is delivered beyond the writable bytes has gone to `extrabuf` and is appended. -/
theorem Carries.readFd (carries : Carries b contents) (data : List UInt8) :
    Carries (b.readFd data) (contents ++ data) := by
  have bounded := carries.bounded
  rw [readFd_eq]
  split
  · rename_i fits
    unfold writableBytes at fits
    have stored := carries.fill data (by omega) (Nat.le_refl _)
    rw [List.take_length] at stored
    exact stored
  · rename_i more
    have appended := (carries.filled (Nat.not_le.mp more)).append (data.drop b.writableBytes)
    rw [List.append_assoc, List.take_append_drop] at appended
    exact appended

/-- What `retrieveAsString` returns: `std::string(peek(), len)`. -/
def stringAt (b : Buffer) (len : Nat) : List UInt8 := segment b.buffer b.readerIndex (b.readerIndex + len)

theorem Carries.stringAt (carries : Carries b contents) (le : len ≤ b.readableBytes) :
    b.stringAt len = contents.take len := by
  have ordered := carries.ordered
  unfold readableBytes at le
  rw [Buffer.stringAt, segment_take (show b.readerIndex + len ≤ b.writerIndex by omega), Nat.add_sub_cancel_left,
    ← carries.readable]
  rfl

@[simp] theorem check_readerIndex (b : Buffer) (holds : Prop) [Decidable holds] :
    (b.check holds).readerIndex = b.readerIndex := by
  unfold check
  split <;> rfl

theorem ensureWritableBytes_header (behind : kCheapPrepend ≤ b.readerIndex) (len : Nat) :
    kCheapPrepend ≤ (b.ensureWritableBytes len).readerIndex := by
  simp only [Buffer.ensureWritableBytes, check_readerIndex]
  split
  · unfold Buffer.makeSpace
    split
    · exact behind
    · simp only [check_readerIndex]
      exact Nat.le_refl _
  · exact behind

theorem append_header (behind : kCheapPrepend ≤ b.readerIndex) (data : List UInt8) :
    kCheapPrepend ≤ (b.append data).readerIndex := by
  simp only [Buffer.append, Buffer.hasWritten, check_readerIndex]
  exact ensureWritableBytes_header behind data.length

theorem readFd_header (behind : kCheapPrepend ≤ b.readerIndex) (data : List UInt8) :
    kCheapPrepend ≤ (b.readFd data).readerIndex := by
  unfold Buffer.readFd
  dsimp only
  split
  · exact behind
  · apply append_header
    exact behind

/-- A retrieval that empties the buffer puts the indices back. -/
theorem Carries.retrieve_header (carries : Carries b contents) (le : len ≤ contents.length)
    (start : contents.length ≤ len ∨ kCheapPrepend ≤ b.readerIndex) :
    kCheapPrepend ≤ (b.retrieve len).readerIndex := by
  have length := carries.length
  simp only [Buffer.retrieve, check_of (show len ≤ b.readableBytes from length ▸ le)]
  split
  · rename_i less
    rcases start with all | behind
    · omega
    · exact Nat.le_trans behind (Nat.le_add_right _ _)
  · exact Nat.le_refl _

inductive Op where
  | append (data : List UInt8)
  | retrieve (len : Nat)
  | retrieveAll
  | retrieveAsString (len : Nat)
  | prepend (data : List UInt8)
  | ensureWritableBytes (len : Nat)
  | write (data : List UInt8) (len : Nat)
  | readFd (data : List UInt8)
  | readFdError
  deriving DecidableEq, Repr

/-- `write` fills `beginWrite()` with `data` and calls `hasWritten(len)`. -/
def Op.apply (b : Buffer) : Op → Buffer
  | .append data => b.append data
  | .retrieve len => b.retrieve len
  | .retrieveAll => b.retrieveAll
  | .retrieveAsString len => b.retrieveAsString len
  | .prepend data => b.prepend data
  | .ensureWritableBytes len => b.ensureWritableBytes len
  | .write data len => (b.fill data).hasWritten len
  | .readFd data => b.readFd data
  | .readFdError => b

/-- The same on a plain list of bytes. -/
def Op.deque (contents : List UInt8) : Op → List UInt8
  | .append data => contents ++ data
  | .retrieve len => contents.drop len
  | .retrieveAll => []
  | .retrieveAsString len => contents.drop len
  | .prepend data => data ++ contents
  | .ensureWritableBytes _ => contents
  | .write data len => contents ++ data.take len
  | .readFd data => contents ++ data
  | .readFdError => contents

/-- The asserted preconditions, no store beyond the buffer, and no more than `readv` was offered. -/
def Op.Legal (b : Buffer) : Op → Prop
  | .retrieve len => len ≤ b.readableBytes
  | .retrieveAsString len => len ≤ b.readableBytes
  | .prepend data => data.length ≤ b.prependableBytes
  | .write data len => len ≤ data.length ∧ data.length ≤ b.writableBytes
  | .readFd data => data.length ≤ b.offered
  | .append _ => True
  | .retrieveAll => True
  | .ensureWritableBytes _ => True
  | .readFdError => True

instance (b : Buffer) : (op : Op) → Decidable (op.Legal b)
  | .retrieve len => inferInstanceAs (Decidable (len ≤ b.readableBytes))
  | .retrieveAsString len => inferInstanceAs (Decidable (len ≤ b.readableBytes))
  | .prepend data => inferInstanceAs (Decidable (data.length ≤ b.prependableBytes))
  | .write data len => inferInstanceAs (Decidable (len ≤ data.length ∧ data.length ≤ b.writableBytes))
  | .readFd data => inferInstanceAs (Decidable (data.length ≤ b.offered))
  | .append _ | .retrieveAll | .ensureWritableBytes _ | .readFdError => isTrue trivial

theorem Carries.apply (carries : Carries b contents) {op : Op} (legal : op.Legal b) :
    Carries (op.apply b) (op.deque contents) := by
  have length := carries.length
  cases op with
  | append data => exact carries.append data
  | retrieve len => exact carries.retrieve (length ▸ legal)
  | retrieveAll => exact carries.retrieveAll
  | retrieveAsString len =>
    show Carries ((b.check (len ≤ b.readableBytes)).retrieve len) _
    rw [check_of (show len ≤ b.readableBytes from legal)]
    exact carries.retrieve (length ▸ legal)
  | prepend data => exact carries.prepend legal
  | ensureWritableBytes len => exact (carries.ensureWritableBytes len).1
  | write data len => exact carries.hasWritten legal.2 legal.1
  | readFd data => exact carries.readFd data
  | readFdError => exact carries

def Op.prepends : Op → Bool
  | .prepend _ => true
  | _ => false

theorem Carries.header (carries : Carries b contents) {op : Op} (legal : op.Legal b) (other : op.prepends = false)
    (behind : kCheapPrepend ≤ b.readerIndex) : kCheapPrepend ≤ (op.apply b).readerIndex := by
  have length := carries.length
  cases op with
  | append data => exact append_header behind data
  | retrieve len => exact carries.retrieve_header (length ▸ legal) (.inr behind)
  | retrieveAll => exact Nat.le_refl _
  | retrieveAsString len =>
    show kCheapPrepend ≤ ((b.check (len ≤ b.readableBytes)).retrieve len).readerIndex
    rw [check_of (show len ≤ b.readableBytes from legal)]
    exact carries.retrieve_header (length ▸ legal) (.inr behind)
  | prepend data => cases other
  | ensureWritableBytes len => exact ensureWritableBytes_header behind len
  | write data len =>
    simp only [Op.apply, Buffer.hasWritten, check_readerIndex]
    exact behind
  | readFd data => exact readFd_header behind data
  | readFdError => exact behind

theorem Carries.header_emptied (carries : Carries b contents) {op : Op} (legal : op.Legal b)
    (emptied : op.deque contents = []) (empty : contents = [] → kCheapPrepend ≤ b.readerIndex) :
    kCheapPrepend ≤ (op.apply b).readerIndex := by
  have length := carries.length
  cases op with
  | retrieve len =>
    exact carries.retrieve_header (length ▸ legal) (.inl (List.drop_eq_nil_iff.mp emptied))
  | retrieveAll => exact Nat.le_refl _
  | retrieveAsString len =>
    show kCheapPrepend ≤ ((b.check (len ≤ b.readableBytes)).retrieve len).readerIndex
    rw [check_of (show len ≤ b.readableBytes from legal)]
    exact carries.retrieve_header (length ▸ legal) (.inl (List.drop_eq_nil_iff.mp emptied))
  | prepend data =>
    obtain ⟨rfl, nothing⟩ := List.append_eq_nil_iff.mp emptied
    simp only [Op.apply, Buffer.prepend, check_readerIndex]
    exact empty nothing
  | append data => exact carries.header legal rfl (empty (List.append_eq_nil_iff.mp emptied).1)
  | ensureWritableBytes len => exact carries.header legal rfl (empty emptied)
  | write data len => exact carries.header legal rfl (empty (List.append_eq_nil_iff.mp emptied).1)
  | readFd data => exact carries.header legal rfl (empty (List.append_eq_nil_iff.mp emptied).1)
  | readFdError => exact carries.header legal rfl (empty emptied)

/-- A buffer and the list it stands for, under the same operations. `prepended` is whether `prepend` was
    called since the buffer was last empty; `returned` and `popped` are the strings taken out of each. -/
structure Deque where
  buffer : Buffer
  contents : List UInt8
  prepended : Bool
  returned : List (List UInt8)
  popped : List (List UInt8)
  deriving DecidableEq, Repr

def Deque.initial (initialSize : Nat) : Deque :=
  { buffer := create initialSize, contents := [], prepended := false, returned := [], popped := [] }

def Deque.takes (d : Deque) (len : Nat) : Deque :=
  { d with returned := d.returned ++ [d.buffer.stringAt len], popped := d.popped ++ [d.contents.take len] }

def Deque.step (d : Deque) (op : Op) : Option Deque :=
  let read := match op with
    | .retrieveAsString len => d.takes len
    | _ => d
  some { read with
    buffer := op.apply d.buffer
    contents := op.deque d.contents
    prepended := decide (op.deque d.contents ≠ []) && (d.prepended || op.prepends) }

def Legal (d : Deque) (op : Op) : Prop := op.Legal d.buffer

instance (d : Deque) (op : Op) : Decidable (Legal d op) := inferInstanceAs (Decidable (op.Legal d.buffer))

structure Refines (d : Deque) : Prop where
  carries : Carries d.buffer d.contents
  header : d.prepended = false → kCheapPrepend ≤ d.buffer.readerIndex
  empty : d.contents = [] → d.prepended = false
  returned : d.returned = d.popped

theorem Refines.step {d e : Deque} (refines : Refines d) {op : Op} (legal : Legal d op)
    (taken : d.step op = some e) : Refines e := by
  have strings : (match op with | .retrieveAsString len => d.takes len | _ => d).returned =
      (match op with | .retrieveAsString len => d.takes len | _ => d).popped := by
    split
    · simp only [Deque.takes, refines.returned, refines.carries.stringAt legal]
    · exact refines.returned
  cases taken
  refine ⟨refines.carries.apply legal, ?_, ?_, strings⟩
  · intro unprepended
    by_cases emptied : op.deque d.contents = []
    · exact refines.carries.header_emptied legal emptied fun none => refines.header (refines.empty none)
    · simp only [emptied, ne_eq, not_false_iff, decide_true, Bool.true_and, Bool.or_eq_false_iff] at unprepended
      exact refines.carries.header legal unprepended.2 (refines.header unprepended.1)
  · intro emptied
    simp only at emptied
    simp only [emptied, ne_eq, not_true, decide_false, Bool.false_and]

/-- In every run of legal operations the buffer holds the bytes of the list. -/
theorem buffer_is_deque {initialSize : Nat} {d : Deque}
    (run : Reaches Deque.step Legal (Deque.initial initialSize) d) :
    d.buffer.readable = d.contents ∧ d.returned = d.popped ∧
    d.buffer.readerIndex ≤ d.buffer.writerIndex ∧ d.buffer.writerIndex ≤ d.buffer.buffer.length ∧
    d.buffer.failed = false ∧ (d.prepended = false → kCheapPrepend ≤ d.buffer.readerIndex) := by
  have start : Refines (Deque.initial initialSize) :=
    ⟨Carries.create initialSize, fun _ => Nat.le_refl _, fun _ => rfl, rfl⟩
  have refines : Refines d := run.keeps start fun _ _ _ held legal taken => held.step legal taken
  exact ⟨refines.carries.readable, refines.returned, refines.carries.ordered, refines.carries.bounded,
    refines.carries.sound, refines.header⟩

/-- A buffer of four bytes is filled, read beyond its end, prepended to and partly retrieved. -/
def smallTraffic : List Op :=
  [.append [1, 2, 3], .readFd [4, 5, 6], .prepend [0], .retrieveAsString 2, .write [] 0, .append [7, 8], .readFdError]

theorem buffer_is_deque_small : ∃ d : Deque, d.contents = [2, 3, 4, 5, 6, 7, 8] ∧ d.popped = [[0, 1]] ∧
    d.buffer.readable = [2, 3, 4, 5, 6, 7, 8] ∧ d.returned = [[0, 1]] := by
  have ran : (exec (guarded Deque.step Legal) (Deque.initial 4) smallTraffic).map (fun d =>
      (d.contents, d.popped)) = some ([2, 3, 4, 5, 6, 7, 8], [[0, 1]]) := by decide
  obtain ⟨d, reached, facts⟩ := Option.map_eq_some_iff.mp ran
  simp only [Prod.mk.injEq] at facts
  obtain ⟨contents, popped⟩ := facts
  obtain ⟨readable, returned, _⟩ := buffer_is_deque (exec_guarded_reaches reached)
  exact ⟨d, contents, popped, readable.trans contents, returned.trans popped⟩

end Hvnetpp.Buffer
