import Mathlib.Algebra.Order.Ring.Nat
import Mathlib.Logic.Function.Basic

namespace Machine

variable {α : Type*}

/-- The entries from `first` on are replaced, `count` of them. -/
def overlay (space : Nat → α) (first count : Nat) (entries : Nat → α) : Nat → α := fun index =>
  if first ≤ index ∧ index < first + count then entries (index - first) else space index

section Overlay

variable {space entries others : Nat → α} {first count : Nat}

theorem overlay_inside {i : Nat} (inside : i < count) : overlay space first count entries (first + i) = entries i := by
  rw [overlay, if_pos (by omega), Nat.add_sub_cancel_left]

theorem overlay_outside {index : Nat} (outside : index < first ∨ first + count ≤ index) :
    overlay space first count entries index = space index := by
  rw [overlay, if_neg (by omega)]

/-- What is put back as it was does not remember what lay there in between. -/
theorem overlay_restore (outside : ∀ index, index < first ∨ first + count ≤ index → others index = space index)
    (entries_eq : ∀ i, i < count → space (first + i) = entries i) : overlay others first count entries = space := by
  funext index
  by_cases inside : first ≤ index ∧ index < first + count
  · have position : index = first + (index - first) := by omega
    rw [position, overlay_inside (by omega), entries_eq _ (by omega)]
  · rw [overlay_outside (by omega), outside index (by omega)]

end Overlay

/-- What the address space has at a page: nothing, a reservation that may not be accessed, or a page of a file. -/
inductive Page where
  | unmapped
  | reserved
  | shared (file page : Nat)
  deriving DecidableEq, Repr

/-- The pages that a range of addresses needs. -/
def pagesFor (pageSize length : Nat) : Nat := (length + (pageSize - 1)) / pageSize

theorem pagesFor_mul {pageSize : Nat} (positive : 0 < pageSize) (count : Nat) :
    pagesFor pageSize (count * pageSize) = count := by
  rw [pagesFor, Nat.add_comm, Nat.add_mul_div_right _ _ positive, Nat.div_eq_of_lt (by omega), Nat.zero_add]

/-- The mappings of a process and the contents of the files. -/
structure Memory where
  space : Nat → Page
  contents : Nat → Nat → UInt8

namespace Memory

/-- The byte of a file that an address stands for. -/
def cell (pageSize : Nat) (m : Memory) (address : Nat) : Option (Nat × Nat) :=
  match m.space (address / pageSize) with
  | .shared file page => some (file, page * pageSize + address % pageSize)
  | .unmapped | .reserved => none

def load (pageSize : Nat) (m : Memory) (address : Nat) : Option UInt8 :=
  (m.cell pageSize address).map fun cell => m.contents cell.1 cell.2

def store (pageSize : Nat) (m : Memory) (address : Nat) (byte : UInt8) : Option Memory :=
  (m.cell pageSize address).map fun cell =>
    { m with contents := Function.update m.contents cell.1 (Function.update (m.contents cell.1) cell.2 byte) }

/-- Two copies of the first `size` bytes of a file, one after the other. -/
def Mirrored (pageSize : Nat) (m : Memory) (data size file : Nat) : Prop :=
  ∀ i, i < 2 * size → m.cell pageSize (data + i) = some (file, i % size)

variable {pageSize : Nat} {m : Memory} {data size file first count : Nat}

theorem mirrored_of_pages (positive : 0 < pageSize)
    (pages : ∀ j, j < 2 * count → m.space (first + j) = .shared file (j % count)) :
    m.Mirrored pageSize (first * pageSize) (count * pageSize) file := by
  intro i less
  have page : (first * pageSize + i) / pageSize = first + i / pageSize := by
    rw [Nat.add_comm, Nat.add_mul_div_right _ _ positive, Nat.add_comm]
  have offset : (first * pageSize + i) % pageSize = i % pageSize := by
    rw [Nat.add_comm, Nat.add_mul_mod_self_right]
  have inside : i / pageSize < 2 * count := by
    rw [Nat.div_lt_iff_lt_mul positive, Nat.mul_assoc]
    exact less
  have wraps : i % (count * pageSize) = i / pageSize % count * pageSize + i % pageSize := by
    rw [Nat.mul_comm count, Nat.mod_mul, Nat.add_comm, Nat.mul_comm pageSize]
  unfold cell
  rw [page, pages _ inside, offset, wraps]

theorem Mirrored.load (mirrored : m.Mirrored pageSize data size file) {i : Nat} (less : i < 2 * size) :
    m.load pageSize (data + i) = some (m.contents file (i % size)) := by
  rw [Memory.load, mirrored i less]
  rfl

theorem Mirrored.store (mirrored : m.Mirrored pageSize data size file) {i : Nat} (less : i < 2 * size) (byte : UInt8) :
    ∃ after, m.store pageSize (data + i) byte = some after ∧ after.Mirrored pageSize data size file ∧
      after.contents file = Function.update (m.contents file) (i % size) byte := by
  have stored : m.store pageSize (data + i) byte = some { m with
      contents := Function.update m.contents file (Function.update (m.contents file) (i % size) byte) } := by
    rw [Memory.store, mirrored i less]
    rfl
  exact ⟨_, stored, mirrored, Function.update_self ..⟩

end Memory

end Machine
