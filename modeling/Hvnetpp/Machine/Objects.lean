import Mathlib.Data.Vector.Basic
import Hvnetpp.Machine.Segment

namespace Machine

variable {α : Type*} {size width offset n k : Nat}

theorem segment_append_left {first second : List α} (length : first.length = n) :
    segment (first ++ second) 0 n = first := by
  rw [segment, ← length, List.take_left, List.drop_zero]

theorem segment_append_right {first second : List α} (length : first.length = n) (i j : Nat) :
    segment (first ++ second) (n + i) (n + j) = segment second i j := by
  rw [segment, segment, ← length, List.take_length_add_append, List.drop_length_add_append]

/-- The bytes of a member of an object, by its offset. -/
def field (object : List.Vector α size) (offset width : Nat) (inside : offset + width ≤ size) : List.Vector α width :=
  ⟨segment object.toList offset (offset + width), by
    rw [segment_length (by rw [object.toList_length]; exact inside)]
    omega⟩

/-- `memcpy` to the beginning of an object. -/
def copyTo (object : List.Vector α size) (data : List.Vector α k) (fits : k ≤ size) : List.Vector α size :=
  ⟨overwrite object.toList 0 data.toList, by
    rw [overwrite_length (by rw [data.toList_length, object.toList_length]; omega), object.toList_length]⟩

/-- A member of what was copied is found at its offset. -/
theorem field_copyTo (object : List.Vector α size) (data : List.Vector α k) (fits : k ≤ size)
    (inside : offset + width ≤ k) :
    field (copyTo object data fits) offset width (by omega) = field data offset width inside := by
  apply Subtype.ext
  have length : data.toList.length = k := data.toList_length
  show segment (overwrite object.toList 0 data.toList) offset (offset + width) = segment data.toList offset (offset + width)
  rw [overwrite, List.take_zero, List.nil_append]
  exact segment_append (by omega)

theorem field_append_left (first : List.Vector α n) (second : List.Vector α k) :
    field (first ++ second) 0 n (by omega) = first := by
  apply Subtype.ext
  show segment (first ++ second).toList 0 (0 + n) = first.toList
  rw [List.Vector.toList_append, Nat.zero_add]
  exact segment_append_left first.toList_length

theorem field_append_right (first : List.Vector α n) (second : List.Vector α k) (offset width : Nat)
    (inside : offset + width ≤ k) :
    field (first ++ second) (n + offset) width (by omega) = field second offset width inside := by
  apply Subtype.ext
  show segment (first ++ second).toList (n + offset) (n + offset + width) = segment second.toList offset (offset + width)
  rw [List.Vector.toList_append, Nat.add_assoc]
  exact segment_append_right first.toList_length _ _

/-- The order in which a machine stores the bytes of a number. -/
inductive ByteOrder where
  | little
  | big
  deriving DecidableEq, Repr

def lowByte (x : UInt16) : UInt8 := UInt8.ofNat (x.toNat % 256)

def highByte (x : UInt16) : UInt8 := UInt8.ofNat (x.toNat / 256)

def ofBytes (low high : UInt8) : UInt16 := UInt16.ofNat (low.toNat + 256 * high.toNat)

theorem ofBytes_bytes (x : UInt16) : ofBytes (lowByte x) (highByte x) = x := by
  have bound := x.toNat_lt
  apply UInt16.toNat_inj.mp
  simp only [ofBytes, lowByte, highByte, UInt16.toNat_ofNat', UInt8.toNat_ofNat']
  omega

theorem lowByte_ofBytes (low high : UInt8) : lowByte (ofBytes low high) = low := by
  have bound := low.toNat_lt
  have bound' := high.toNat_lt
  apply UInt8.toNat_inj.mp
  simp only [ofBytes, lowByte, UInt16.toNat_ofNat', UInt8.toNat_ofNat']
  omega

theorem highByte_ofBytes (low high : UInt8) : highByte (ofBytes low high) = high := by
  have bound := low.toNat_lt
  have bound' := high.toNat_lt
  apply UInt8.toNat_inj.mp
  simp only [ofBytes, highByte, UInt16.toNat_ofNat', UInt8.toNat_ofNat']
  omega

def ByteOrder.store (order : ByteOrder) (x : UInt16) : List.Vector UInt8 2 :=
  match order with
  | .little => ⟨[lowByte x, highByte x], rfl⟩
  | .big => ⟨[highByte x, lowByte x], rfl⟩

def ByteOrder.load (order : ByteOrder) (bytes : List.Vector UInt8 2) : UInt16 :=
  match order with
  | .little => ofBytes bytes.head bytes.tail.head
  | .big => ofBytes bytes.tail.head bytes.head

@[simp] theorem ByteOrder.load_store (order : ByteOrder) (x : UInt16) : order.load (order.store x) = x := by
  cases order with
  | little => exact ofBytes_bytes x
  | big => exact ofBytes_bytes x

@[simp] theorem ByteOrder.store_load (order : ByteOrder) (bytes : List.Vector UInt8 2) :
    order.store (order.load bytes) = bytes := by
  obtain ⟨list, length⟩ := bytes
  obtain ⟨first, second, rfl⟩ := List.length_eq_two.mp length
  apply Subtype.ext
  cases order with
  | little =>
    show [lowByte (ofBytes first second), highByte (ofBytes first second)] = [first, second]
    rw [lowByte_ofBytes, highByte_ofBytes]
  | big =>
    show [highByte (ofBytes second first), lowByte (ofBytes second first)] = [first, second]
    rw [lowByte_ofBytes, highByte_ofBytes]

/-- The number whose bytes stand in network order, which is the big one. -/
def ByteOrder.htons (order : ByteOrder) (x : UInt16) : UInt16 := order.load (ByteOrder.big.store x)

def ByteOrder.ntohs (order : ByteOrder) (x : UInt16) : UInt16 := ByteOrder.big.load (order.store x)

@[simp] theorem ByteOrder.ntohs_htons (order : ByteOrder) (x : UInt16) : order.ntohs (order.htons x) = x := by
  rw [ntohs, htons, store_load, load_store]

end Machine
