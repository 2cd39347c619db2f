import Hvnetpp.Buffer.Model

namespace Hvnetpp.Buffer

open Machine

variable {b : Buffer} {contents data : List UInt8} {len : Nat}

/-- The buffer is well formed and its readable bytes are `contents`. -/
structure Carries (b : Buffer) (contents : List UInt8) : Prop where
  room : kCheapPrepend ≤ b.buffer.length
  ordered : b.readerIndex ≤ b.writerIndex
  bounded : b.writerIndex ≤ b.buffer.length
  readable : b.readable = contents
  sound : b.failed = false

theorem check_of {holds : Prop} [Decidable holds] (h : holds) : b.check holds = b := if_pos h

theorem Carries.create (initialSize : Nat) : Carries (create initialSize) [] where
  room := by simp [Buffer.create]
  ordered := Nat.le_refl _
  bounded := by simp [Buffer.create]
  readable := segment_self
  sound := rfl

theorem Carries.length (carries : Carries b contents) : b.readableBytes = contents.length := by
  rw [← carries.readable, Buffer.readable, segment_length carries.bounded, readableBytes]

theorem Carries.retrieve (carries : Carries b contents) (le : len ≤ contents.length) :
    Carries (b.retrieve len) (contents.drop len) := by
  have length := carries.length
  have ordered := carries.ordered
  simp only [Buffer.retrieve, check_of (show len ≤ b.readableBytes from length ▸ le)]
  split
  · rename_i less
    unfold readableBytes at less
    refine { carries with ordered := by show b.readerIndex + len ≤ b.writerIndex; omega, readable := ?_ }
    rw [← carries.readable]
    exact segment_drop len
  · rename_i all
    have nothing : contents.drop len = [] := List.drop_eq_nil_of_le (by omega)
    rw [nothing]
    exact ⟨carries.room, Nat.le_refl _, carries.room, segment_self, carries.sound⟩

theorem Carries.resize (carries : Carries b contents) (size : Nat) (grows : b.buffer.length ≤ size) :
    Carries (b.resize size) contents := by
  have same : b.buffer.take size = b.buffer := List.take_of_length_le grows
  have room := carries.room
  have bounded := carries.bounded
  refine ⟨?_, carries.ordered, ?_, ?_, carries.sound⟩
  · simp only [Buffer.resize, same, List.length_append]
    omega
  · simp only [Buffer.resize, same, List.length_append]
    omega
  · simp only [Buffer.resize, same, Buffer.readable]
    rw [segment_append carries.bounded]
    exact carries.readable

/-- `makeSpace` when there is not enough room behind the writer index. -/
theorem Carries.makeSpace (carries : Carries b contents) (short : b.writableBytes < len) :
    Carries (b.makeSpace len) contents ∧ len ≤ (b.makeSpace len).writableBytes := by
  have length := carries.length
  have ordered := carries.ordered
  have bounded := carries.bounded
  unfold writableBytes at short
  unfold Buffer.makeSpace
  split
  · refine ⟨carries.resize _ (by omega), ?_⟩
    simp only [Buffer.resize, writableBytes, List.length_append, List.length_take, List.length_replicate]
    omega
  · rename_i enough
    simp only [writableBytes, prependableBytes, kCheapPrepend] at enough
    have behind : kCheapPrepend < b.readerIndex := by
      unfold kCheapPrepend
      omega
    have count : b.readable.length = b.readableBytes := by rw [carries.readable, length]
    have fits : kCheapPrepend + b.readableBytes ≤ b.buffer.length := by
      unfold readableBytes
      omega
    have size : (overwrite b.buffer kCheapPrepend b.readable).length = b.buffer.length :=
      overwrite_length (count.symm ▸ fits)
    simp only [check_of behind]
    rw [check_of (by simp [readableBytes])]
    refine ⟨⟨?_, ?_, ?_, ?_, carries.sound⟩, ?_⟩
    · exact size.symm ▸ carries.room
    · exact Nat.le_add_right _ _
    · exact size.symm ▸ fits
    · show segment (overwrite b.buffer kCheapPrepend b.readable) kCheapPrepend (kCheapPrepend + b.readableBytes) =
        contents
      rw [← count, segment_overwrite _ (Nat.le_refl _) carries.room, segment_self, List.nil_append]
      exact carries.readable
    · simp only [writableBytes, size]
      unfold readableBytes kCheapPrepend
      omega

theorem Carries.ensureWritableBytes (carries : Carries b contents) (len : Nat) :
    Carries (b.ensureWritableBytes len) contents ∧ len ≤ (b.ensureWritableBytes len).writableBytes := by
  unfold Buffer.ensureWritableBytes
  split
  · rename_i short
    obtain ⟨carries, enough⟩ := carries.makeSpace short
    rw [check_of enough]
    exact ⟨carries, enough⟩
  · rename_i enough
    rw [check_of (Nat.not_lt.mp enough)]
    exact ⟨carries, Nat.not_lt.mp enough⟩

/-- Bytes are stored behind the readable ones and the first `len` of them are taken over. -/
theorem Carries.fill (carries : Carries b contents) (data : List UInt8)
    (fits : b.writerIndex + data.length ≤ b.buffer.length)
    (le : len ≤ data.length) :
    Carries { b.fill data with writerIndex := b.writerIndex + len } (contents ++ data.take len) := by
  have size := overwrite_length fits
  have ordered := carries.ordered
  refine ⟨?_, ?_, ?_, ?_, carries.sound⟩
  · exact size.symm ▸ carries.room
  · exact Nat.le_trans carries.ordered (Nat.le_add_right _ _)
  · show b.writerIndex + len ≤ (overwrite b.buffer b.writerIndex data).length
    rw [size]
    omega
  · show segment (overwrite b.buffer b.writerIndex data) b.readerIndex (b.writerIndex + len) = _
    have count : (segment b.buffer b.readerIndex b.writerIndex).length = b.writerIndex - b.readerIndex :=
      segment_length carries.bounded
    rw [segment_take (show b.writerIndex + len ≤ b.writerIndex + data.length by omega),
      segment_overwrite data carries.ordered carries.bounded, List.take_append, count,
      List.take_of_length_le (by omega), ← carries.readable]
    congr 2
    omega

theorem Carries.hasWritten (carries : Carries b contents) (fits : data.length ≤ b.writableBytes)
    (le : len ≤ data.length) : Carries ((b.fill data).hasWritten len) (contents ++ data.take len) := by
  have bounded := carries.bounded
  have room : b.writerIndex + data.length ≤ b.buffer.length := by
    unfold writableBytes at fits
    omega
  have enough : len ≤ (b.fill data).writableBytes := by
    have size : (b.fill data).buffer.length = b.buffer.length := overwrite_length room
    unfold writableBytes at fits ⊢
    rw [size]
    exact Nat.le_trans le fits
  simp only [Buffer.hasWritten, check_of enough]
  exact carries.fill data room le

theorem Carries.append (carries : Carries b contents) (data : List UInt8) :
    Carries (b.append data) (contents ++ data) := by
  obtain ⟨carries, enough⟩ := carries.ensureWritableBytes data.length
  have written := carries.hasWritten enough (Nat.le_refl _)
  rw [List.take_length] at written
  exact written

end Hvnetpp.Buffer
