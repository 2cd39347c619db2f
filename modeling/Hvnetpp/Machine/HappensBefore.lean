import Mathlib.Tactic.Common

namespace Machine

/-- `seqCst` acquires and releases; the total order of these operations adds nothing to happens-before. -/
inductive MemoryOrder where
  | relaxed
  | acquire
  | release
  | seqCst
  deriving DecidableEq, Repr

def MemoryOrder.acquires : MemoryOrder → Bool
  | .acquire | .seqCst => true
  | .relaxed | .release => false

def MemoryOrder.releases : MemoryOrder → Bool
  | .release | .seqCst => true
  | .relaxed | .acquire => false

/-- What a thread does to memory; `read` and `write` are accesses to plain objects, and `exchange` is any operation
    that reads and modifies in one step. -/
inductive Access (Loc : Type) where
  | read (x : Loc)
  | write (x : Loc)
  | load (x : Loc) (order : MemoryOrder)
  | store (x : Loc) (order : MemoryOrder)
  | exchange (x : Loc) (order : MemoryOrder)
  | fence (order : MemoryOrder)
  deriving DecidableEq, Repr

structure Event (θ Loc : Type) where
  thread : θ
  access : Access Loc
  deriving DecidableEq, Repr

variable {θ Loc : Type}

def Access.location : Access Loc → Option Loc
  | .read x | .write x | .load x _ | .store x _ | .exchange x _ => some x
  | .fence _ => none

def Access.modifies : Access Loc → Option Loc
  | .write x | .store x _ | .exchange x _ => some x
  | .read _ | .load _ _ | .fence _ => none

def Access.plain : Access Loc → Bool
  | .read _ | .write _ => true
  | .load _ _ | .store _ _ | .exchange _ _ | .fence _ => false

/-- An atomic modification with its order. -/
def Access.stores : Access Loc → Option (Loc × MemoryOrder)
  | .store x order | .exchange x order => some (x, order)
  | .read _ | .write _ | .load _ _ | .fence _ => none

/-- An atomic read with its order. -/
def Access.loads : Access Loc → Option (Loc × MemoryOrder)
  | .load x order | .exchange x order => some (x, order)
  | .read _ | .write _ | .store _ _ | .fence _ => none

/-- In the order of the trace every read sees the last modification before it. -/
structure ReadsFrom (history : List (Event θ Loc)) (x : Loc) (source reader : Nat) : Prop where
  before : source < reader
  modifies : ∃ event, history[source]? = some event ∧ event.access.modifies = some x
  last : ∀ between event, source < between → between < reader → history[between]? = some event →
    event.access.modifies ≠ some x

/-- A modification is in the release sequence of an earlier one if all after that one are exchanges. -/
structure Heads (history : List (Event θ Loc)) (x : Loc) (first last : Nat) : Prop where
  le : first ≤ last
  exchanges : ∀ between event, first < between → between ≤ last → history[between]? = some event →
    event.access.modifies = some x → ∃ order, event.access = .exchange x order

inductive Releases (history : List (Event θ Loc)) (x : Loc) (released store : Nat) : Prop where
  | operation (event : Event θ Loc) (order : MemoryOrder) (same : released = store)
      (present : history[store]? = some event) (stores : event.access.stores = some (x, order))
      (releases : order.releases = true)
  | fence (first event : Event θ Loc) (fenced order : MemoryOrder) (before : released < store)
      (there : history[released]? = some first) (fence : first.access = .fence fenced)
      (releases : fenced.releases = true) (present : history[store]? = some event)
      (stores : event.access.stores = some (x, order)) (thread : first.thread = event.thread)

inductive Acquires (history : List (Event θ Loc)) (x : Loc) (load acquired : Nat) : Prop where
  | operation (event : Event θ Loc) (order : MemoryOrder) (same : acquired = load)
      (present : history[load]? = some event) (loads : event.access.loads = some (x, order))
      (acquires : order.acquires = true)
  | fence (event last : Event θ Loc) (order fenced : MemoryOrder) (after : load < acquired)
      (present : history[load]? = some event) (loads : event.access.loads = some (x, order))
      (there : history[acquired]? = some last) (fence : last.access = .fence fenced)
      (acquires : fenced.acquires = true) (thread : last.thread = event.thread)

structure Synchronizes (history : List (Event θ Loc)) (x : Loc) (released store source load acquired : Nat) : Prop where
  releases : Releases history x released store
  heads : Heads history x store source
  readsFrom : ReadsFrom history x source load
  acquires : Acquires history x load acquired

/-- Program order, synchronisation and their compositions. -/
inductive HappensBefore (history : List (Event θ Loc)) : Nat → Nat → Prop where
  | program {i j : Nat} (first second : Event θ Loc) (before : i < j) (left : history[i]? = some first)
      (right : history[j]? = some second) (thread : first.thread = second.thread) : HappensBefore history i j
  | synchronizes {x : Loc} {i store source load j : Nat} (sync : Synchronizes history x i store source load j) :
      HappensBefore history i j
  | trans {i j k : Nat} (first : HappensBefore history i j) (second : HappensBefore history j k) : HappensBefore history i k

/-- Two threads access one object, one of them modifies it, and not both accesses are atomic. -/
structure Conflict (first second : Event θ Loc) (x : Loc) : Prop where
  threads : first.thread ≠ second.thread
  left : first.access.location = some x
  right : second.access.location = some x
  modifies : first.access.modifies = some x ∨ second.access.modifies = some x
  plain : first.access.plain = true ∨ second.access.plain = true

theorem Conflict.symm {first second : Event θ Loc} {x : Loc} (conflict : Conflict first second x) :
    Conflict second first x :=
  ⟨conflict.threads.symm, conflict.right, conflict.left, conflict.modifies.symm, conflict.plain.symm⟩

variable {history : List (Event θ Loc)} {i j : Nat}

theorem Synchronizes.lt {x : Loc} {store source load : Nat} (sync : Synchronizes history x i store source load j) :
    i < j := by
  have released : i ≤ store := by
    cases sync.releases with
    | operation _ _ same => exact Nat.le_of_eq same
    | fence _ _ _ _ before => exact Nat.le_of_lt before
  have acquired : load ≤ j := by
    cases sync.acquires with
    | operation _ _ same => exact Nat.le_of_eq same.symm
    | fence _ _ _ _ after => exact Nat.le_of_lt after
  have sequence := sync.heads.le
  have reads := sync.readsFrom.before
  omega

theorem HappensBefore.lt (before : HappensBefore history i j) : i < j := by
  induction before with
  | program _ _ less => exact less
  | synchronizes sync => exact sync.lt
  | trans _ _ left right => exact Nat.lt_trans left right

/-- What is published by a store that releases and read by a load that acquires. -/
theorem HappensBefore.publishes {x : Loc} {writer reader : Event θ Loc} (before : i < j)
    (stored : history[i]? = some writer) (store : writer.access = .store x .release) (loaded : history[j]? = some reader)
    (load : reader.access = .load x .acquire)
    (last : ∀ between event, i < between → between < j → history[between]? = some event →
      event.access.modifies ≠ some x) : HappensBefore history i j := by
  have sync : Synchronizes history x i i i j j := by
    constructor
    · exact .operation writer .release rfl stored (by rw [store]; rfl) rfl
    · constructor
      · exact Nat.le_refl i
      · intro between event after upTo
        omega
    · exact ⟨before, ⟨writer, stored, by rw [store]; rfl⟩, last⟩
    · exact .operation reader .acquire rfl loaded (by rw [load]; rfl) rfl
  exact .synchronizes sync

/-- What no step of happens-before leaves, happens-before does not leave. -/
theorem HappensBefore.confined (before : HappensBefore history i j) (inside : Event θ Loc → Prop)
    (program : ∀ first second : Event θ Loc, first.thread = second.thread → inside first → inside second)
    (sync : ∀ x r store source load q first second, Synchronizes history x r store source load q →
      history[r]? = some first → history[q]? = some second → inside first → inside second)
    {first second : Event θ Loc} (left : history[i]? = some first) (right : history[j]? = some second)
    (start : inside first) : inside second := by
  induction before generalizing first second with
  | program e f _ present last thread =>
    rw [left] at present
    rw [right] at last
    cases present
    cases last
    exact program _ _ thread start
  | synchronizes s => exact sync _ _ _ _ _ _ _ _ s left right start
  | @trans i j k one two here there =>
    have inRange : j < history.length := by
      have less := two.lt
      have bound := (List.getElem?_eq_some_iff.mp right).1
      omega
    have middle : history[j]? = some history[j] := List.getElem?_eq_getElem inRange
    exact there middle right (here left middle start)

theorem getElem?_append_some {α : Type} {front : List α} {n : Nat} {a : α} (present : front[n]? = some a) (back : List α) :
    (front ++ back)[n]? = some a := by
  rw [List.getElem?_append_left (List.getElem?_eq_some_iff.mp present).1]
  exact present

/-- What comes later in the trace changes nothing between two earlier places. -/
theorem HappensBefore.append (before : HappensBefore history i j) (more : List (Event θ Loc)) :
    HappensBefore (history ++ more) i j := by
  have keep {n : Nat} {event : Event θ Loc} (present : history[n]? = some event) :
      (history ++ more)[n]? = some event := getElem?_append_some present more
  induction before with
  | program e f less left right thread => exact .program e f less (keep left) (keep right) thread
  | trans _ _ one two => exact .trans one two
  | @synchronizes x i store source load j sync =>
    have inRange : load < history.length := by
      cases sync.acquires with
      | operation event order same present => exact (List.getElem?_eq_some_iff.mp present).1
      | fence event last order fenced after present => exact (List.getElem?_eq_some_iff.mp present).1
    have back {n : Nat} {event : Event θ Loc} (inside : n < load) (present : (history ++ more)[n]? = some event) :
        history[n]? = some event := by
      rw [List.getElem?_append_left (Nat.lt_trans inside inRange)] at present
      exact present
    have reads := sync.readsFrom.before
    have kept : Synchronizes (history ++ more) x i store source load j := by
      constructor
      · cases sync.releases with
        | operation event order same present stores releases =>
          exact .operation event order same (keep present) stores releases
        | fence first event fenced order less there fence releases present stores thread =>
          exact .fence first event fenced order less (keep there) fence releases (keep present) stores thread
      · constructor
        · exact sync.heads.le
        · intro between event after upTo present
          exact sync.heads.exchanges between event after upTo (back (Nat.lt_of_le_of_lt upTo reads) present)
      · obtain ⟨event, present, modifies⟩ := sync.readsFrom.modifies
        refine ⟨reads, ⟨event, keep present, modifies⟩, ?_⟩
        intro between other after less found
        exact sync.readsFrom.last between other after less (back less found)
      · cases sync.acquires with
        | operation event order same present loads acquires =>
          exact .operation event order same (keep present) loads acquires
        | fence event last order fenced after present loads there fence acquires thread =>
          exact .fence event last order fenced after (keep present) loads (keep there) fence acquires thread
    exact .synchronizes kept

end Machine
