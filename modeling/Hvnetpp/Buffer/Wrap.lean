import Mathlib.Algebra.Order.Ring.Nat
import Hvnetpp.Buffer.Growth

namespace Hvnetpp.Buffer.Size64

open Machine

/-- How a member function ends: it returns, it lets the exception of `resize` through, or it has stored bytes
    outside the vector. -/
inductive Outcome where
  | returned (b : Buffer)
  | threw (b : Buffer)
  | overrun
  deriving DecidableEq, Repr

/-- The rest of a function after a call that may throw. -/
def Outcome.andThen (outcome : Outcome) (rest : Buffer → Outcome) : Outcome :=
  match outcome with
  | .returned b => rest b
  | .threw b => .threw b
  | .overrun => .overrun

@[simp] theorem Outcome.returned_andThen (b : Buffer) (rest : Buffer → Outcome) :
    (Outcome.returned b).andThen rest = rest b := rfl

@[simp] theorem Outcome.threw_andThen (b : Buffer) (rest : Buffer → Outcome) :
    (Outcome.threw b).andThen rest = .threw b := rfl

/-- The sum of two `size_t`. -/
def add (x y : Nat) : Nat := (x + y) % 2 ^ 64

def sub (x y : Nat) : Nat := (x + 2 ^ 64 - y) % 2 ^ 64

def readableBytes (b : Buffer) : Nat := sub b.writerIndex b.readerIndex

def writableBytes (b : Buffer) : Nat := sub b.buffer.length b.writerIndex

def prependableBytes (b : Buffer) : Nat := b.readerIndex

/-- `std::vector::resize`, which throws before it changes anything. -/
def resize (maxSize : Nat) (b : Buffer) (size : Nat) : Outcome :=
  if maxSize < size then .threw b else .returned (b.resize size)

-- As compiled with `NDEBUG`: no assertion is left to stop a call whose sums have wrapped.
def makeSpace (maxSize : Nat) (b : Buffer) (len : Nat) : Outcome :=
  if add (writableBytes b) (prependableBytes b) < add len kCheapPrepend then resize maxSize b (add b.writerIndex len)
  else
    let readable := readableBytes b
    -- the two ranges of `memmove`
    if b.buffer.length < b.readerIndex + readable ∨ b.buffer.length < kCheapPrepend + readable then .overrun
    else .returned { b with
      buffer := overwrite b.buffer kCheapPrepend (segment b.buffer b.readerIndex (b.readerIndex + readable))
      readerIndex := kCheapPrepend
      writerIndex := add kCheapPrepend readable }

def ensureWritableBytes (maxSize : Nat) (b : Buffer) (len : Nat) : Outcome :=
  if writableBytes b < len then makeSpace maxSize b len else .returned b

def append (maxSize : Nat) (b : Buffer) (data : List UInt8) : Outcome :=
  (ensureWritableBytes maxSize b data.length).andThen fun c =>
    if c.buffer.length < c.writerIndex + data.length then .overrun
    else .returned { c.fill data with writerIndex := add c.writerIndex data.length }

def readFd (maxSize : Nat) (b : Buffer) (data : List UInt8) : Outcome :=
  if data.length ≤ writableBytes b then
    .returned { b.fill data with writerIndex := add b.writerIndex data.length }
  else append maxSize (b.filled data) (data.drop (writableBytes b))

/-- The operations that reserve room have arithmetic that can wrap; the others only compare and move indices
    that lie inside the vector. -/
def apply (maxSize : Nat) (b : Buffer) : Op → Outcome
  | .append data => append maxSize b data
  | .ensureWritableBytes len => ensureWritableBytes maxSize b len
  | .readFd data => readFd maxSize b data
  | op => .returned (op.apply b)

/-- An exception leaves the buffer in use. -/
def step (maxSize : Nat) (b : Buffer) (op : Op) : Option Buffer :=
  match apply maxSize b op with
  | .returned c => some c
  | .threw c => some c
  | .overrun => none

/-- The sums that `makeSpace` forms of `len` do not wrap. -/
def Fits (b : Buffer) (len : Nat) : Prop := len + max kCheapPrepend b.writerIndex < 2 ^ 64

instance (b : Buffer) (len : Nat) : Decidable (Fits b len) :=
  inferInstanceAs (Decidable (len + max kCheapPrepend b.writerIndex < 2 ^ 64))

/-- A legal operation whose request, if it makes one, fits. -/
def Ok (b : Buffer) (op : Op) : Prop := op.Legal b ∧ ∀ request ∈ op.request b, Fits request.1 request.2

instance (b : Buffer) (op : Op) : Decidable (Ok b op) := inferInstanceAs (Decidable (_ ∧ _))

variable {maxSize len : Nat} {b : Buffer} {contents data : List UInt8}

theorem add_eq {x y : Nat} (small : x + y < 2 ^ 64) : add x y = x + y := Nat.mod_eq_of_lt small

theorem sub_eq {x y : Nat} (le : y ≤ x) (small : x < 2 ^ 64) : sub x y = x - y := by
  unfold sub
  have split : x + 2 ^ 64 - y = x - y + 2 ^ 64 := by omega
  rw [split, Nat.add_mod_right, Nat.mod_eq_of_lt (by omega)]

section NoWrap

variable (carries : Carries b contents) (within : b.buffer.length < 2 ^ 64)

include carries within

theorem readableBytes_eq : readableBytes b = b.readableBytes :=
  sub_eq carries.ordered (Nat.lt_of_le_of_lt carries.bounded within)

theorem writableBytes_eq : writableBytes b = b.writableBytes := sub_eq carries.bounded within

theorem room_eq : add (writableBytes b) (prependableBytes b) = b.writableBytes + b.prependableBytes := by
  have ordered := carries.ordered
  have bounded := carries.bounded
  rw [writableBytes_eq carries within]
  apply add_eq
  unfold Buffer.writableBytes prependableBytes
  omega

/-- The branch of `makeSpace` that moves the readable bytes to the front. -/
theorem compacts (maxSize : Nat) (fits : Fits b len) (short : b.writableBytes < len)
    (enough : ¬ b.writableBytes + b.prependableBytes < len + kCheapPrepend) :
    makeSpace maxSize b len = .returned (b.makeSpace len) ∧
    (b.makeSpace len).buffer.length = b.buffer.length := by
  have ordered := carries.ordered
  have bounded := carries.bounded
  have sum : add len kCheapPrepend = len + kCheapPrepend := by
    apply add_eq
    unfold Fits at fits
    omega
  have count : b.readable.length = b.readableBytes := by rw [carries.readable, carries.length]
  have behind : kCheapPrepend < b.readerIndex := by
    unfold Buffer.writableBytes Buffer.prependableBytes at enough
    unfold Buffer.writableBytes at short
    omega
  have front : kCheapPrepend + b.readableBytes ≤ b.buffer.length := by
    unfold Buffer.readableBytes
    omega
  have source : b.readerIndex + b.readableBytes = b.writerIndex := by
    unfold Buffer.readableBytes
    omega
  have plain : b.makeSpace len = { b with
      buffer := overwrite b.buffer kCheapPrepend b.readable
      readerIndex := kCheapPrepend
      writerIndex := kCheapPrepend + b.readableBytes } := by
    unfold Buffer.makeSpace
    rw [if_neg enough]
    simp only [check_of behind]
    rw [check_of (by simp [Buffer.readableBytes])]
  constructor
  · unfold makeSpace
    rw [room_eq carries within, sum, if_neg enough, plain]
    simp only [readableBytes_eq carries within, source]
    rw [if_neg (by omega), add_eq (by omega)]
    rfl
  · rw [plain]
    exact overwrite_length (count.symm ▸ front)

/-- A request that fits has the outcome of the unbounded arithmetic, unless `resize` throws. -/
theorem ensureWritableBytes_eq (held : b.buffer.length ≤ maxSize) (fits : Fits b len) :
    ensureWritableBytes maxSize b len =
      if maxSize < (b.ensureWritableBytes len).buffer.length then .threw b
      else .returned (b.ensureWritableBytes len) := by
  have bounded := carries.bounded
  have enough := (carries.ensureWritableBytes len).2
  unfold ensureWritableBytes
  rw [writableBytes_eq carries within]
  by_cases short : b.writableBytes < len
  · rw [if_pos short]
    have made : b.ensureWritableBytes len = b.makeSpace len := by
      unfold Buffer.ensureWritableBytes
      rw [if_pos short]
      exact check_of (carries.makeSpace short).2
    rw [made]
    by_cases less : b.writableBytes + b.prependableBytes < len + kCheapPrepend
    · have plain : b.makeSpace len = b.resize (b.writerIndex + len) := if_pos less
      have size : (b.resize (b.writerIndex + len)).buffer.length = b.writerIndex + len := by
        unfold Buffer.writableBytes at short
        simp only [Buffer.resize, List.length_append, List.length_take, List.length_replicate]
        omega
      have sums : add len kCheapPrepend = len + kCheapPrepend ∧ add b.writerIndex len = b.writerIndex + len := by
        unfold Fits at fits
        exact ⟨add_eq (by omega), add_eq (by omega)⟩
      unfold makeSpace
      rw [room_eq carries within, sums.1, if_pos less, sums.2, plain, size]
      rfl
    · obtain ⟨returns, size⟩ := compacts carries within maxSize fits short less
      rw [returns, size, if_neg (by omega)]
  · rw [if_neg short]
    have made : b.ensureWritableBytes len = b := by
      unfold Buffer.ensureWritableBytes
      rw [if_neg short]
      exact check_of (Nat.not_lt.mp short)
    rw [made, if_neg (by omega)]

end NoWrap

theorem check_writerIndex (b : Buffer) (holds : Prop) [Decidable holds] :
    (b.check holds).writerIndex = b.writerIndex := by
  unfold Buffer.check
  split <;> rfl

theorem ensureWritableBytes_writer (past : kCheapPrepend ≤ b.writerIndex) (len : Nat) :
    kCheapPrepend ≤ (b.ensureWritableBytes len).writerIndex := by
  simp only [Buffer.ensureWritableBytes, check_writerIndex]
  split
  · unfold Buffer.makeSpace
    split
    · exact past
    · simp only [check_writerIndex]
      exact Nat.le_add_right _ _
  · exact past

/-- The operations that request no room leave the writer index behind the prefix. -/
theorem apply_writer (past : kCheapPrepend ≤ b.writerIndex) {op : Op} (none : op.request b = none) :
    kCheapPrepend ≤ (op.apply b).writerIndex := by
  have retrieved : ∀ (c : Buffer) len, kCheapPrepend ≤ c.writerIndex → kCheapPrepend ≤ (c.retrieve len).writerIndex := by
    intro c len behind
    unfold Buffer.retrieve
    dsimp only
    split
    · rw [check_writerIndex]
      exact behind
    · exact Nat.le_refl _
  cases op with
  | append data => cases none
  | ensureWritableBytes len => cases none
  | retrieve len => exact retrieved b len past
  | retrieveAll => exact Nat.le_refl _
  | retrieveAsString len =>
    apply retrieved
    rw [check_writerIndex]
    exact past
  | prepend data =>
    show kCheapPrepend ≤ (b.check _).writerIndex
    rw [check_writerIndex]
    exact past
  | write data len =>
    show kCheapPrepend ≤ ((b.fill data).check _).writerIndex + len
    rw [check_writerIndex]
    exact Nat.le_trans past (Nat.le_add_right _ _)
  | readFd data =>
    have fits : data.length ≤ b.writableBytes := by
      by_contra more
      rw [Op.request, if_neg more] at none
      cases none
    show kCheapPrepend ≤ (b.readFd data).writerIndex
    rw [readFd_eq, if_pos fits]
    exact Nat.le_trans past (Nat.le_add_right _ _)
  | readFdError => exact past

/-- What holds of the buffer of a run in which every request fits. -/
structure Sound (maxSize : Nat) (b : Buffer) : Prop where
  formed : ∃ contents, Carries b contents
  held : b.buffer.length ≤ maxSize
  past : kCheapPrepend ≤ b.writerIndex

theorem Sound.ensureWritableBytes (wide : maxSize < 2 ^ 64) (sound : Sound maxSize b) (fits : Fits b len) :
    Size64.ensureWritableBytes maxSize b len = .threw b ∨
    Size64.ensureWritableBytes maxSize b len = .returned (b.ensureWritableBytes len) ∧
      Sound maxSize (b.ensureWritableBytes len) := by
  obtain ⟨contents, carries⟩ := sound.formed
  rw [ensureWritableBytes_eq carries (Nat.lt_of_le_of_lt sound.held wide) sound.held fits]
  split
  · exact .inl rfl
  · rename_i held
    exact .inr ⟨rfl, ⟨contents, (carries.ensureWritableBytes len).1⟩, Nat.not_lt.mp held,
      ensureWritableBytes_writer sound.past len⟩

/-- The outcomes of an operation on a sound buffer: it is left sound, and no byte goes astray. -/
inductive Safe (maxSize : Nat) : Outcome → Prop where
  | returned {c : Buffer} (sound : Sound maxSize c) : Safe maxSize (.returned c)
  | threw {c : Buffer} (sound : Sound maxSize c) : Safe maxSize (.threw c)

theorem Sound.append (wide : maxSize < 2 ^ 64) (sound : Sound maxSize b) (fits : Fits b data.length) :
    Safe maxSize (Size64.append maxSize b data) := by
  unfold Size64.append
  cases sound.ensureWritableBytes wide fits with
  | inl threw =>
    rw [threw, Outcome.threw_andThen]
    exact .threw sound
  | inr returned =>
    rw [returned.1, Outcome.returned_andThen]
    have held := returned.2.held
    obtain ⟨contents, carries⟩ := sound.formed
    obtain ⟨carries, enough⟩ := carries.ensureWritableBytes data.length
    have bounded := carries.bounded
    have stored := fill_length enough bounded
    unfold Buffer.writableBytes at enough
    have written := carries.fill data (by omega) (Nat.le_refl _)
    have past := returned.2.past
    rw [if_neg (by omega), add_eq (by omega)]
    exact .returned ⟨⟨_, written⟩, Nat.le_trans (Nat.le_of_eq stored) held, Nat.le_trans past (Nat.le_add_right _ _)⟩

theorem Sound.readFd (wide : maxSize < 2 ^ 64) (sound : Sound maxSize b) (ok : Ok b (.readFd data)) :
    Safe maxSize (Size64.readFd maxSize b data) := by
  obtain ⟨contents, carries⟩ := sound.formed
  have bounded := carries.bounded
  have held := sound.held
  unfold Size64.readFd
  rw [writableBytes_eq carries (by omega)]
  by_cases fits : data.length ≤ b.writableBytes
  · rw [if_pos fits]
    have stored := fill_length fits bounded
    unfold Buffer.writableBytes at fits
    have written := carries.fill data (by omega) (Nat.le_refl _)
    rw [add_eq (by omega)]
    exact .returned ⟨⟨_, written⟩, Nat.le_trans (Nat.le_of_eq stored) held,
      Nat.le_trans sound.past (Nat.le_add_right _ _)⟩
  · have more : b.writableBytes < data.length := Nat.not_le.mp fits
    rw [if_neg fits]
    have asked : Fits (b.filled data) (data.drop b.writableBytes).length := ok.2 _ (if_neg fits)
    have size := filled_length more bounded
    exact Sound.append wide ⟨⟨_, carries.filled more⟩, Nat.le_trans (Nat.le_of_eq size) held, carries.room⟩ asked

theorem Sound.apply (wide : maxSize < 2 ^ 64) (sound : Sound maxSize b) {op : Op} (ok : Ok b op) :
    Safe maxSize (Size64.apply maxSize b op) := by
  -- an operation without a request leaves the size of the vector as it is
  have plain : op.request b = none → Safe maxSize (.returned (op.apply b)) := by
    intro none
    obtain ⟨contents, carries⟩ := sound.formed
    have grown := (carries.apply_grows ok.1).bounded
    have held := sound.held
    have room := carries.room
    have unasked : largest (op.demands b) = 0 := by
      unfold Op.demands
      rw [none]
      rfl
    rw [unasked] at grown
    exact .returned ⟨⟨_, carries.apply ok.1⟩, by omega, apply_writer sound.past none⟩
  cases op with
  | append data => exact sound.append wide (ok.2 _ rfl)
  | ensureWritableBytes len =>
    show Safe maxSize (Size64.ensureWritableBytes maxSize b len)
    cases sound.ensureWritableBytes wide (ok.2 _ rfl) with
    | inl threw =>
      rw [threw]
      exact .threw sound
    | inr returned =>
      rw [returned.1]
      exact .returned returned.2
  | readFd data => exact sound.readFd wide ok
  | retrieve _ => exact plain rfl
  | retrieveAll => exact plain rfl
  | retrieveAsString _ => exact plain rfl
  | prepend _ => exact plain rfl
  | write _ _ => exact plain rfl
  | readFdError => exact plain rfl

theorem Sound.step (wide : maxSize < 2 ^ 64) (sound : Sound maxSize b) {op : Op} (ok : Ok b op) {c : Buffer}
    (taken : Size64.step maxSize b op = some c) : Sound maxSize c := by
  unfold Size64.step at taken
  have safe := sound.apply wide ok
  cases outcome : Size64.apply maxSize b op with
  | returned d =>
    rw [outcome] at safe taken
    cases taken
    cases safe with
    | returned sound => exact sound
  | threw d =>
    rw [outcome] at safe taken
    cases taken
    cases safe with
    | threw sound => exact sound
  | overrun =>
    rw [outcome] at taken
    cases taken

/-- The request is refused by an exception that changes nothing, or it is met. -/
def Answered (maxSize : Nat) (b : Buffer) (len : Nat) : Prop :=
  ensureWritableBytes maxSize b len = .threw b ∨
  ∃ c, ensureWritableBytes maxSize b len = .returned c ∧ len ≤ writableBytes c ∧ c.readable = b.readable ∧
    c.readerIndex ≤ c.writerIndex ∧ c.writerIndex ≤ c.buffer.length

theorem Sound.answered (wide : maxSize < 2 ^ 64) (sound : Sound maxSize b) (fits : Fits b len) :
    Answered maxSize b len := by
  cases sound.ensureWritableBytes wide fits with
  | inl threw => exact .inl threw
  | inr returned =>
    right
    obtain ⟨contents, carries⟩ := sound.formed
    obtain ⟨after, enough⟩ := carries.ensureWritableBytes len
    refine ⟨_, returned.1, ?_, after.readable.trans carries.readable.symm, after.ordered, after.bounded⟩
    rw [writableBytes_eq after (Nat.lt_of_le_of_lt returned.2.held wide)]
    exact enough

/-- The wrapped size lies below the writer index. -/
theorem resize_cuts (bounded : b.writerIndex ≤ b.buffer.length) (held : b.buffer.length ≤ maxSize)
    (size : len < 2 ^ 64) (beyond : 2 ^ 64 ≤ b.writerIndex + len) :
    ∃ c, resize maxSize b (add b.writerIndex len) = .returned c ∧ c.buffer.length < c.writerIndex := by
  have wrapped : add b.writerIndex len < b.writerIndex := by
    unfold add
    omega
  refine ⟨b.resize (add b.writerIndex len), if_neg (by omega), ?_⟩
  simp only [Buffer.resize, List.length_append, List.length_take, List.length_replicate]
  omega

theorem moved_length (carries : Carries b contents) (within : b.buffer.length < 2 ^ 64)
    (front : kCheapPrepend + readableBytes b ≤ b.buffer.length) :
    (overwrite b.buffer kCheapPrepend (segment b.buffer b.readerIndex (b.readerIndex + readableBytes b))).length =
      b.buffer.length := by
  have ordered := carries.ordered
  have count : readableBytes b = b.readableBytes := readableBytes_eq carries within
  have source : b.readerIndex + b.readableBytes = b.writerIndex := by
    unfold Buffer.readableBytes
    omega
  apply overwrite_length
  rw [count, source]
  show kCheapPrepend + b.readable.length ≤ _
  rw [carries.readable, ← carries.length, ← count]
  exact front

/-- If the sums wrap, the vector is cut off before its readable bytes, or stays as small as it is. -/
theorem Sound.unanswered (narrow : maxSize < 2 ^ 63) (sound : Sound maxSize b) (size : len < 2 ^ 64)
    (wraps : ¬ Fits b len) : ¬ Answered maxSize b len := by
  obtain ⟨contents, carries⟩ := sound.formed
  have held := sound.held
  have past := sound.past
  have bounded := carries.bounded
  have beyond : 2 ^ 64 ≤ b.writerIndex + len := by
    unfold Fits at wraps
    omega
  have short : writableBytes b < len := by
    rw [writableBytes_eq carries (by omega)]
    unfold Buffer.writableBytes
    omega
  intro answered
  unfold Answered Size64.ensureWritableBytes at answered
  rw [if_pos short] at answered
  unfold makeSpace at answered
  split at answered
  · obtain ⟨cut, returns, outside⟩ := resize_cuts bounded held size beyond
    rw [returns] at answered
    cases answered with
    | inl threw => cases threw
    | inr met =>
      obtain ⟨c, returned, _, _, _, inside⟩ := met
      cases returned
      omega
  · dsimp only at answered
    split at answered
    · cases answered with
      | inl threw => cases threw
      | inr met =>
        obtain ⟨c, returned, _⟩ := met
        cases returned
    · rename_i ranges
      have moved := moved_length carries (by omega) (by omega)
      cases answered with
      | inl threw => cases threw
      | inr met =>
        obtain ⟨c, returned, enough, _, _, inside⟩ := met
        cases returned
        have room := sub_eq inside (by rw [moved]; omega)
        unfold writableBytes at enough
        rw [room] at enough
        simp only [moved] at enough
        omega

/-- A request is answered exactly if the sums that `makeSpace` forms of it do not wrap. -/
theorem fitting_request_safe {initialSize : Nat} (narrow : maxSize < 2 ^ 63)
    (constructed : kCheapPrepend + initialSize ≤ maxSize)
    (run : Reaches (step maxSize) Ok (create initialSize) b) (size : len < 2 ^ 64) :
    Answered maxSize b len ↔ Fits b len := by
  have wide : maxSize < 2 ^ 64 := by omega
  have start : Sound maxSize (create initialSize) :=
    ⟨⟨[], Carries.create initialSize⟩, by simp only [create, List.length_replicate]; exact constructed, Nat.le_refl _⟩
  have sound : Sound maxSize b := run.keeps start fun _ _ _ held ok taken => held.step wide ok taken
  constructor
  · intro answered
    by_contra wraps
    exact sound.unanswered narrow size wraps answered
  · intro fits
    exact sound.answered wide fits

/-- `max_size()` of a vector of `char`. -/
def charMaxSize : Nat := 2 ^ 63 - 1

/-- Five bytes are in the buffer, and a request that no vector can meet is refused. -/
theorem fitting_request_safe_refused : ∃ b : Buffer, b.readable = [1, 2, 3, 4, 5] ∧ Fits b (2 ^ 63) ∧
    ensureWritableBytes charMaxSize b (2 ^ 63) = .threw b := by
  have ran : (exec (guarded (step charMaxSize) Ok) (create 16) [.append [1, 2, 3, 4, 5]]).map
      (fun b => (b.readable, decide (Fits b (2 ^ 63)),
        decide (ensureWritableBytes charMaxSize b (2 ^ 63) = .threw b))) = some ([1, 2, 3, 4, 5], true, true) := by
    decide +kernel
  obtain ⟨b, reached, facts⟩ := Option.map_eq_some_iff.mp ran
  simp only [Prod.mk.injEq, decide_eq_true_eq] at facts
  obtain ⟨readable, fits, threw⟩ := facts
  refine ⟨b, readable, fits, ?_⟩
  have safe := (fitting_request_safe (by decide) (by decide) (exec_guarded_reaches reached) (by decide)).mpr fits
  cases safe with
  | inl refused => exact refused
  | inr met =>
    obtain ⟨c, returned, _⟩ := met
    rw [threw] at returned
    cases returned

/-- With `len + kCheapPrepend` wrapped a new buffer is taken to have room for nearly `2 ^ 64` bytes, and with
    `writerIndex_ + len` wrapped the vector is cut off before its readable bytes. -/
theorem wrapped_request_returns :
    (∃ c, ensureWritableBytes charMaxSize (create 16) (2 ^ 64 - 1) = .returned c ∧ writableBytes c = 16) ∧
    ∃ b c, Reaches (step charMaxSize) Ok (create 16) b ∧ b.readable = [1, 2, 3, 4, 5] ∧
      ensureWritableBytes charMaxSize b (2 ^ 64 - 9) = .returned c ∧ c.writerIndex = 13 ∧ c.buffer.length = 4 := by
  constructor
  · exact ⟨create 16, by decide +kernel, by decide +kernel⟩
  · have ran : (exec (guarded (step charMaxSize) Ok) (create 16) [.append [1, 2, 3, 4, 5]]).map
        (fun b => (b.readable, decide (ensureWritableBytes charMaxSize b (2 ^ 64 - 9) = .returned (b.resize 4)),
          b.writerIndex, (b.resize 4).buffer.length)) = some ([1, 2, 3, 4, 5], true, 13, 4) := by decide +kernel
    obtain ⟨b, reached, facts⟩ := Option.map_eq_some_iff.mp ran
    simp only [Prod.mk.injEq, decide_eq_true_eq] at facts
    obtain ⟨readable, returned, writer, size⟩ := facts
    exact ⟨b, b.resize 4, exec_guarded_reaches reached, readable, returned, writer, size⟩

end Hvnetpp.Buffer.Size64
