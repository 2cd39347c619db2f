import Hvnetpp.Machine.Pages
import Hvnetpp.Mpsc.Model

namespace Hvnetpp.Mpsc

open Machine

/-- The descriptors of the process by the file they are open on, and the files that have a name under `/tmp`. -/
structure Kernel where
  memory : Memory
  descriptors : Nat → Option Nat
  linked : Nat → Bool

/-- What the system calls of `createBufferMirror` come to. `mkstemp` returns a descriptor and makes a file, and
    `reserve` is the page at which the kernel places the anonymous mapping. -/
structure Outcomes where
  mkstemp : Option (Nat × Nat)
  unlink : Bool
  ftruncate : Bool
  reserve : Option Nat
  first : Bool
  second : Bool
  deriving DecidableEq, Repr

def Outcomes.succeed (o : Outcomes) : Bool :=
  o.mkstemp.isSome && o.unlink && o.ftruncate && o.reserve.isSome && o.first && o.second

namespace Kernel

def open_ (k : Kernel) (fd file : Nat) : Kernel :=
  { k with
    descriptors := Function.update k.descriptors fd (some file)
    linked := Function.update k.linked file true }

def unlink (k : Kernel) (file : Nat) : Kernel := { k with linked := Function.update k.linked file false }

def close (k : Kernel) (fd : Nat) : Kernel := { k with descriptors := Function.update k.descriptors fd none }

/-- `ftruncate` of a file that is empty. -/
def ftruncate (k : Kernel) (file : Nat) : Kernel :=
  { k with memory := { k.memory with contents := Function.update k.memory.contents file fun _ => 0 } }

variable (pageShift : Nat)

def setPages (k : Kernel) (address length : Nat) (pages : Nat → Page) : Kernel :=
  { k with memory := { k.memory with
      space := overlay k.memory.space (address / 2 ^ pageShift) (pagesFor (2 ^ pageShift) length) pages } }

def munmap (k : Kernel) (address length : Nat) : Kernel := k.setPages pageShift address length fun _ => .unmapped

/-- `mmap` with `MAP_FIXED`, which wants the address to be that of a page. -/
def mmapFixed (k : Kernel) (address length fd : Nat) (succeeds : Bool) : Option Kernel :=
  if address % 2 ^ pageShift = 0 ∧ succeeds = true then
    (k.descriptors fd).map fun file => k.setPages pageShift address length (.shared file)
  else none

/-- The end of `createBufferMirror`: the file is mapped into both halves of the reservation. -/
def mapTwice (size : Nat) (k : Kernel) (data fd : Nat) (first second : Bool) : Kernel × Option Nat :=
  match k.mmapFixed pageShift data size fd first with
  | none => ((k.munmap pageShift data (2 * size)).close fd, none)
  | some k =>
    match k.mmapFixed pageShift (data + size) size fd second with
    | none => ((k.munmap pageShift data (2 * size)).close fd, none)
    | some k => (k.close fd, some data)

/-- `CircularBuffer::createBufferMirror`, with `data_`. -/
def createBufferMirror (order : Nat) (k : Kernel) (o : Outcomes) : Kernel × Option Nat :=
  let size := 2 ^ order
  match o.mkstemp with
  | none => (k, none)
  | some (fd, file) =>
    let k := k.open_ fd file
    if o.unlink = false then (k.close fd, none)
    else
      let k := k.unlink file
      if o.ftruncate = false then (k.close fd, none)
      else
        let k := k.ftruncate file
        match o.reserve with
        | none => (k.close fd, none)
        | some page =>
          let data := page * 2 ^ pageShift
          (k.setPages pageShift data (2 * size) fun _ => .reserved).mapTwice pageShift size data fd o.first o.second

/-- `~CircularBuffer`. -/
def destroy (order : Nat) (k : Kernel) : Option Nat → Kernel
  | some data => k.munmap pageShift data (2 * 2 ^ order)
  | none => k

/-- The descriptor and the file of `mkstemp` are new, and the reservation is where nothing was. -/
structure Possible (order : Nat) (k : Kernel) (o : Outcomes) : Prop where
  descriptor : ∀ fd file, o.mkstemp = some (fd, file) → k.descriptors fd = none ∧ k.linked file = false
  reserve : ∀ page, o.reserve = some page →
    ∀ i, i < pagesFor (2 ^ pageShift) (2 * 2 ^ order) → k.memory.space (page + i) = .unmapped

section Lemmas

variable {pageShift order : Nat} {k : Kernel} {o : Outcomes} {page : Nat}

theorem aligned_iff : (page * 2 ^ pageShift + 2 ^ order) % 2 ^ pageShift = 0 ↔ pageShift ≤ order := by
  rw [Nat.mul_add_mod_self_right, ← Nat.dvd_iff_mod_eq_zero, Nat.pow_dvd_pow_iff_le_right (Nat.lt_succ_self 1)]

theorem start_page : page * 2 ^ pageShift / 2 ^ pageShift = page := Nat.mul_div_cancel _ (Nat.two_pow_pos _)

theorem size_pages (large : pageShift ≤ order) : 2 ^ order = 2 ^ (order - pageShift) * 2 ^ pageShift := by
  rw [← pow_add, Nat.sub_add_cancel large]

theorem second_page (large : pageShift ≤ order) :
    (page * 2 ^ pageShift + 2 ^ order) / 2 ^ pageShift = page + 2 ^ (order - pageShift) := by
  rw [size_pages large, ← Nat.add_mul, start_page]

theorem pagesFor_one (large : pageShift ≤ order) :
    pagesFor (2 ^ pageShift) (2 ^ order) = 2 ^ (order - pageShift) := by
  rw [size_pages large, pagesFor_mul (Nat.two_pow_pos pageShift)]

theorem pagesFor_two (large : pageShift ≤ order) :
    pagesFor (2 ^ pageShift) (2 * 2 ^ order) = 2 * 2 ^ (order - pageShift) := by
  rw [size_pages large, ← Nat.mul_assoc, pagesFor_mul (Nat.two_pow_pos pageShift)]

theorem pagesFor_half : pagesFor (2 ^ pageShift) (2 ^ order) ≤ pagesFor (2 ^ pageShift) (2 * 2 ^ order) :=
  Nat.div_le_div_right (by omega)

/-- Everything is as it was, but for the name of the file if it could not be removed. -/
structure Reverted (k after : Kernel) (o : Outcomes) : Prop where
  descriptors : after.descriptors = k.descriptors
  space : after.memory.space = k.memory.space
  linked : ∀ file, after.linked file = true → k.linked file = true ∨ o.unlink = false

/-- The `2 * 2 ^ order` bytes from `page` on are the file twice, and it has no other name. -/
structure Mapped (pageShift order : Nat) (k after : Kernel) (page file : Nat) : Prop where
  descriptors : after.descriptors = k.descriptors
  linked : after.linked = k.linked
  vacant : ∀ i, i < pagesFor (2 ^ pageShift) (2 * 2 ^ order) → k.memory.space (page + i) = .unmapped
  outside : ∀ index, index < page ∨ page + pagesFor (2 ^ pageShift) (2 * 2 ^ order) ≤ index →
    after.memory.space index = k.memory.space index
  mirrored : after.memory.Mirrored (2 ^ pageShift) (page * 2 ^ pageShift) (2 ^ order) file
  blank : after.memory.contents file = fun _ => 0

/-- How `createBufferMirror` may end. -/
inductive Ends (pageShift order : Nat) (k : Kernel) (o : Outcomes) (succeeds : Prop) : Kernel × Option Nat → Prop
  | reverted {after : Kernel} : ¬ succeeds → Reverted k after o → Ends pageShift order k o succeeds (after, none)
  | mapped {after : Kernel} {page file : Nat} : succeeds → Mapped pageShift order k after page file →
    Ends pageShift order k o succeeds (after, some (page * 2 ^ pageShift))

theorem closed_again {fd file : Nat} (unused : k.descriptors fd = none) :
    Function.update (Function.update k.descriptors fd (some file)) fd none = k.descriptors := by
  rw [Function.update_idem, ← unused, Function.update_eq_self]

theorem unlinked_again {file : Nat} (unused : k.linked file = false) :
    Function.update (Function.update k.linked file true) file false = k.linked := by
  rw [Function.update_idem, ← unused, Function.update_eq_self]

/-- The kernel between `ftruncate` and the end, with what it has mapped of the two copies. -/
structure Amid (pageShift order : Nat) (k amid : Kernel) (page fd file : Nat) : Prop where
  descriptors : amid.descriptors = Function.update k.descriptors fd (some file)
  linked : amid.linked = k.linked
  outside : ∀ index, index < page ∨ page + pagesFor (2 ^ pageShift) (2 * 2 ^ order) ≤ index →
    amid.memory.space index = k.memory.space index
  blank : amid.memory.contents file = fun _ => 0

variable {amid : Kernel} {fd file : Nat}

theorem Amid.setPages (held : Amid pageShift order k amid page fd file) {address length : Nat} {pages : Nat → Page}
    (lower : page ≤ address / 2 ^ pageShift)
    (upper : address / 2 ^ pageShift + pagesFor (2 ^ pageShift) length ≤
      page + pagesFor (2 ^ pageShift) (2 * 2 ^ order)) :
    Amid pageShift order k (amid.setPages pageShift address length pages) page fd file where
  descriptors := held.descriptors
  linked := held.linked
  outside index out := (overlay_outside (by omega)).trans (held.outside index out)
  blank := held.blank

theorem Amid.closes (held : Amid pageShift order k amid page fd file) (unused : k.descriptors fd = none) :
    Function.update amid.descriptors fd none = k.descriptors := by
  rw [held.descriptors]
  exact closed_again unused

/-- The way back after a mapping that failed. -/
theorem Amid.reverts (held : Amid pageShift order k amid page fd file) (unused : k.descriptors fd = none)
    (vacant : ∀ i, i < pagesFor (2 ^ pageShift) (2 * 2 ^ order) → k.memory.space (page + i) = .unmapped) :
    Reverted k ((amid.munmap pageShift (page * 2 ^ pageShift) (2 * 2 ^ order)).close fd) o where
  descriptors := held.closes unused
  space := by
    simp only [close, munmap, Kernel.setPages]
    rw [start_page]
    exact overlay_restore held.outside vacant
  linked name there := .inl (held.linked ▸ there)

theorem mmapFixed_none {address length : Nat} {succeeds : Bool}
    (failed : ¬ (address % 2 ^ pageShift = 0 ∧ succeeds = true)) :
    amid.mmapFixed pageShift address length fd succeeds = none := if_neg failed

theorem Amid.mmapFixed_some (held : Amid pageShift order k amid page fd file) {address length : Nat} {succeeds : Bool}
    (aligned : address % 2 ^ pageShift = 0) (succeeded : succeeds = true) :
    amid.mmapFixed pageShift address length fd succeeds =
      some (amid.setPages pageShift address length (.shared file)) := by
  rw [mmapFixed, if_pos ⟨aligned, succeeded⟩, held.descriptors, Function.update_self]
  rfl

/-- Both copies are there. -/
theorem mirrored_twice (large : pageShift ≤ order) :
    (((amid.setPages pageShift (page * 2 ^ pageShift) (2 ^ order) (.shared file)).setPages pageShift
      (page * 2 ^ pageShift + 2 ^ order) (2 ^ order) (.shared file)).memory).Mirrored
        (2 ^ pageShift) (page * 2 ^ pageShift) (2 ^ order) file := by
  rw [size_pages large]
  apply Memory.mirrored_of_pages (Nat.two_pow_pos pageShift)
  rw [← size_pages large]
  intro j less
  simp only [Kernel.setPages, start_page, second_page large, pagesFor_one large]
  by_cases first : j < 2 ^ (order - pageShift)
  · rw [overlay_outside (by omega), overlay_inside first, Nat.mod_eq_of_lt first]
  · have position : page + j = page + 2 ^ (order - pageShift) + (j - 2 ^ (order - pageShift)) := by omega
    have wraps : j % 2 ^ (order - pageShift) = j - 2 ^ (order - pageShift) := by
      rw [Nat.mod_eq_sub_mod (by omega), Nat.mod_eq_of_lt (by omega)]
    rw [position, overlay_inside (by omega), wraps]

theorem Amid.mapTwice (held : Amid pageShift order k amid page fd file) (unused : k.descriptors fd = none)
    (vacant : ∀ i, i < pagesFor (2 ^ pageShift) (2 * 2 ^ order) → k.memory.space (page + i) = .unmapped)
    (first second : Bool) :
    Ends pageShift order k o (first = true ∧ second = true ∧ pageShift ≤ order)
      (amid.mapTwice pageShift (2 ^ order) (page * 2 ^ pageShift) fd first second) := by
  have half : pagesFor (2 ^ pageShift) (2 ^ order) ≤ pagesFor (2 ^ pageShift) (2 * 2 ^ order) := pagesFor_half
  unfold Kernel.mapTwice
  cases first with
  | false =>
    rw [mmapFixed_none (by simp)]
    exact .reverted (by simp) (held.reverts unused vacant)
  | true =>
    have one : Amid pageShift order k
        (amid.setPages pageShift (page * 2 ^ pageShift) (2 ^ order) (.shared file)) page fd file :=
      held.setPages (Nat.le_of_eq start_page.symm) (by rw [start_page]; omega)
    rw [held.mmapFixed_some (Nat.mul_mod_left ..) rfl]
    dsimp only
    by_cases both : second = true ∧ pageShift ≤ order
    · obtain ⟨succeeded, large⟩ := both
      rw [one.mmapFixed_some (aligned_iff.mpr large) succeeded]
      have two : Amid pageShift order k
          ((amid.setPages pageShift (page * 2 ^ pageShift) (2 ^ order) (.shared file)).setPages pageShift
            (page * 2 ^ pageShift + 2 ^ order) (2 ^ order) (.shared file)) page fd file := by
        apply one.setPages <;> rw [second_page large]
        · exact Nat.le_add_right ..
        · rw [pagesFor_one large, pagesFor_two large]
          omega
      exact .mapped ⟨rfl, succeeded, large⟩
        ⟨two.closes unused, two.linked, vacant, two.outside, mirrored_twice large, two.blank⟩
    · rw [mmapFixed_none fun fixed => both ⟨fixed.2, aligned_iff.mp fixed.1⟩]
      exact .reverted (fun all => both all.2) (one.reverts unused vacant)

theorem createBufferMirror_ends (possible : Possible pageShift order k o) :
    Ends pageShift order k o (o.succeed = true ∧ pageShift ≤ order) (createBufferMirror pageShift order k o) := by
  obtain ⟨mkstemp, unlink, ftruncate, reserve, first, second⟩ := o
  rcases mkstemp with _ | ⟨fd, file⟩
  · exact .reverted (by simp [Outcomes.succeed]) ⟨rfl, rfl, fun _ there => .inl there⟩
  obtain ⟨unused, unnamed⟩ := possible.descriptor fd file rfl
  have linked := unlinked_again unnamed
  cases unlink with
  | false => exact .reverted (by simp [Outcomes.succeed]) ⟨closed_again unused, rfl, fun _ _ => .inr rfl⟩
  | true =>
    cases ftruncate with
    | false =>
      exact .reverted (by simp [Outcomes.succeed]) ⟨closed_again unused, rfl, fun _ there => .inl (linked ▸ there)⟩
    | true =>
      cases reserve with
      | none =>
        exact .reverted (by simp [Outcomes.succeed]) ⟨closed_again unused, rfl, fun _ there => .inl (linked ▸ there)⟩
      | some page =>
        have truncated : Amid pageShift order k (((k.open_ fd file).unlink file).ftruncate file) page fd file :=
          ⟨rfl, linked, fun _ _ => rfl, Function.update_self ..⟩
        have held : Amid pageShift order k ((((k.open_ fd file).unlink file).ftruncate file).setPages pageShift
            (page * 2 ^ pageShift) (2 * 2 ^ order) fun _ => .reserved) page fd file :=
          truncated.setPages (Nat.le_of_eq start_page.symm) (by rw [start_page])
        have ends := held.mapTwice (o := ⟨some (fd, file), true, true, some page, first, second⟩) unused
          (possible.reserve page rfl) first second
        have all : (Outcomes.succeed ⟨some (fd, file), true, true, some page, first, second⟩ = true ∧
            pageShift ≤ order) = (first = true ∧ second = true ∧ pageShift ≤ order) := by
          simp [Outcomes.succeed, and_assoc]
        rw [all]
        exact ends

/-- `createBufferMirror` leaks neither a descriptor nor a mapping, whatever its system calls come to, and the destructor
    gives back what it mapped. The buffer is valid if they all succeed and it is no smaller than a page: the second copy
    of a smaller one would not begin at a page. -/
theorem mirror_gives_back (possible : Possible pageShift order k o) {after : Kernel} {data : Option Nat}
    (made : createBufferMirror pageShift order k o = (after, data)) :
    (data.isSome = true ↔ o.succeed = true ∧ pageShift ≤ order) ∧
    after.descriptors = k.descriptors ∧
    (data = none → after.memory.space = k.memory.space) ∧
    (after.destroy pageShift order data).memory.space = k.memory.space ∧
    (∀ file, after.linked file = true → k.linked file = true ∨ o.unlink = false) := by
  have ends := createBufferMirror_ends possible
  rw [made] at ends
  cases ends with
  | reverted failed reverted =>
    exact ⟨by simpa using failed, reverted.descriptors, fun _ => reverted.space, reverted.space, reverted.linked⟩
  | mapped succeeded mapped =>
    refine ⟨by simpa using succeeded, mapped.descriptors, by simp, ?_, fun file there => .inl (mapped.linked ▸ there)⟩
    simp only [destroy, munmap, Kernel.setPages, start_page]
    exact overlay_restore mapped.outside mapped.vacant

end Lemmas

/-- A process with the standard descriptors and nothing mapped. -/
def fresh : Kernel :=
  { memory := { space := fun _ => .unmapped, contents := fun _ _ => 0 }
    descriptors := fun fd => if fd < 3 then some fd else none
    linked := fun _ => false }

def allSucceed : Outcomes := ⟨some (3, 3), true, true, some 7, true, true⟩

theorem allSucceed_possible (pageShift order : Nat) : Possible pageShift order fresh allSucceed where
  descriptor fd file same := by
    cases same
    exact ⟨rfl, rfl⟩
  reserve _ _ _ _ := rfl

/-- A buffer of one node, with pages of 4096 bytes: every system call that can succeed does, and there is no buffer. -/
theorem mirror_gives_back_small : ∃ after, createBufferMirror 12 6 fresh allSucceed = (after, none) ∧
    allSucceed.succeed = true ∧ after.memory.space = fresh.memory.space := by
  have invalid : (createBufferMirror 12 6 fresh allSucceed).2 = none := by decide +kernel
  have back := mirror_gives_back (allSucceed_possible 12 6) (Prod.mk.eta ..).symm
  exact ⟨_, Prod.ext rfl invalid, rfl, back.2.2.1 invalid⟩

section View

variable {α : Type} [Inhabited α] {pageShift order data file : Nat} {k : Kernel} {o : Outcomes} {memory : Memory}

/-- A byte written at some distance from `getPointer(offset)`. -/
structure Write where
  offset : BitVec 32
  index : Nat
  byte : UInt8
  deriving DecidableEq, Repr

/-- The address of a byte at some distance from `getPointer(offset)`. -/
def addressOf (buffer : CircularBuffer α) (data : Nat) (offset : BitVec 32) (index : Nat) : Option Nat :=
  (buffer.getPointer offset).map fun position => data + position + index

def storeAll (pageShift : Nat) (buffer : CircularBuffer α) (data : Nat) (memory : Memory) : List Write → Option Memory
  | [] => some memory
  | write :: rest =>
    (addressOf buffer data write.offset write.index).bind fun address =>
      (memory.store (2 ^ pageShift) address write.byte).bind fun next => storeAll pageShift buffer data next rest

/-- A ring of bytes after a write. -/
def turned (order : Nat) (bytes : Nat → UInt8) (write : Write) : Nat → UInt8 :=
  Function.update bytes ((write.offset.toNat + write.index) % 2 ^ order) write.byte

/-- A distance of at most the size stays in the two copies, and its byte is that of the ring. -/
theorem addressOf_valid (data : Nat) (offset : BitVec 32) {index : Nat} (near : index ≤ 2 ^ order) :
    ∃ i, addressOf (CircularBuffer.create α order true) data offset index = some (data + i) ∧ i < 2 * 2 ^ order ∧
      i % 2 ^ order = (offset.toNat + index) % 2 ^ order := by
  have inside : offset.toNat % 2 ^ order < 2 ^ order := Nat.mod_lt _ (Nat.two_pow_pos order)
  refine ⟨offset.toNat % 2 ^ order + index, ?_, by omega, Nat.mod_add_mod ..⟩
  show some (data + (offset.toNat &&& (2 ^ order - 1)) + index) = _
  rw [Nat.and_two_pow_sub_one_eq_mod, Nat.add_assoc]

theorem storeAll_mirrored (mirrored : memory.Mirrored (2 ^ pageShift) data (2 ^ order) file) {writes : List Write}
    (near : ∀ write ∈ writes, write.index ≤ 2 ^ order) :
    ∃ after, storeAll pageShift (CircularBuffer.create α order true) data memory writes = some after ∧
      after.Mirrored (2 ^ pageShift) data (2 ^ order) file ∧
      after.contents file = writes.foldl (turned order) (memory.contents file) := by
  induction writes generalizing memory with
  | nil => exact ⟨memory, rfl, mirrored, rfl⟩
  | cons write rest held =>
    obtain ⟨i, address, less, position⟩ := addressOf_valid (α := α) data write.offset (near write List.mem_cons_self)
    obtain ⟨next, stored, still, contents⟩ := mirrored.store less write.byte
    obtain ⟨after, ran, ends, bytes⟩ := held still fun other member => near other (List.mem_cons_of_mem _ member)
    refine ⟨after, ?_, ends, ?_⟩
    · rw [storeAll, address, Option.bind_some, stored, Option.bind_some, ran]
    · rw [bytes, contents, position]
      rfl

/-- Memory behind a valid buffer is a ring of zeroes to begin with, and stays a ring: bytes up to the size away from any
    `getPointer(offset)` can be written and read without regard to the end of the buffer. -/
theorem mirror_is_ring (possible : Possible pageShift order k o) {after : Kernel}
    (made : createBufferMirror pageShift order k o = (after, some data)) {writes : List Write}
    (near : ∀ write ∈ writes, write.index ≤ 2 ^ order) :
    ∃ memory, storeAll pageShift (CircularBuffer.create α order true) data after.memory writes = some memory ∧
      ∀ offset index, index ≤ 2 ^ order →
        (addressOf (CircularBuffer.create α order true) data offset index).bind (memory.load (2 ^ pageShift)) =
          some (writes.foldl (turned order) (fun _ => 0) ((offset.toNat + index) % 2 ^ order)) := by
  have ends := createBufferMirror_ends possible
  rw [made] at ends
  cases ends with
  | mapped succeeded mapped =>
    obtain ⟨memory, ran, mirrored, bytes⟩ := storeAll_mirrored (α := α) mapped.mirrored near
    refine ⟨memory, ran, fun offset index close => ?_⟩
    obtain ⟨i, address, less, position⟩ := addressOf_valid (α := α) _ offset close
    rw [address, Option.bind_some, mirrored.load less, position, bytes, mapped.blank]

/-- The last byte of the buffer and, one further, the first. -/
def atTheEnd : List Write := [⟨4095, 0, 1⟩, ⟨4095, 1, 2⟩]

theorem mirror_is_ring_page : ∃ after memory, createBufferMirror 12 12 fresh allSucceed = (after, some (7 * 4096)) ∧
    storeAll 12 (CircularBuffer.create Unit 12 true) (7 * 4096) after.memory atTheEnd = some memory ∧
    (addressOf (CircularBuffer.create Unit 12 true) (7 * 4096) 8192 0).bind (memory.load 4096) = some 2 := by
  have valid : (createBufferMirror 12 12 fresh allSucceed).2 = some (7 * 4096) := by decide +kernel
  have near : ∀ write ∈ atTheEnd, write.index ≤ 2 ^ 12 := by decide
  obtain ⟨memory, ran, bytes⟩ := mirror_is_ring (α := Unit) (allSucceed_possible 12 12) (Prod.ext rfl valid) near
  refine ⟨_, memory, Prod.ext rfl valid, ran, ?_⟩
  have first := bytes 8192 0 (by decide)
  exact first.trans (by decide +kernel)

end View

end Kernel

end Hvnetpp.Mpsc
