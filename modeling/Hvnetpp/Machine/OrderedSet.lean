import Mathlib.Data.List.Sort

namespace Machine

/-- A set kept as the increasing list of its elements. -/
structure OrderedSet (α : Type*) [LinearOrder α] where
  elems : List α
  sorted : elems.Pairwise (· < ·)

namespace OrderedSet

variable {α : Type*} [LinearOrder α]

instance : EmptyCollection (OrderedSet α) := ⟨⟨[], .nil⟩⟩

instance : Membership α (OrderedSet α) := ⟨fun set x => x ∈ set.elems⟩

instance (x : α) (set : OrderedSet α) : Decidable (x ∈ set) := inferInstanceAs (Decidable (x ∈ set.elems))

def size (set : OrderedSet α) : Nat := set.elems.length

def first (set : OrderedSet α) : Option α := set.elems.head?

theorem pairwise_orderedInsert {x : α} {elems : List α} (sorted : elems.Pairwise (· < ·))
    (fresh : x ∉ elems) : (elems.orderedInsert (· ≤ ·) x).Pairwise (· < ·) := by
  have weak : elems.Pairwise (· ≤ ·) := sorted.imp le_of_lt
  have nodup : (elems.orderedInsert (· ≤ ·) x).Nodup := by
    rw [(List.perm_orderedInsert (· ≤ ·) x elems).nodup_iff, List.nodup_cons]
    exact ⟨fresh, sorted.imp ne_of_lt⟩
  exact ((weak.orderedInsert x elems).and nodup).imp fun both => lt_of_le_of_ne both.1 both.2

def insert (set : OrderedSet α) (x : α) : OrderedSet α :=
  if fresh : x ∈ set.elems then set
  else ⟨set.elems.orderedInsert (· ≤ ·) x, pairwise_orderedInsert set.sorted fresh⟩

def erase (set : OrderedSet α) (x : α) : OrderedSet α :=
  ⟨set.elems.erase x, set.sorted.sublist List.erase_sublist⟩

/-- The elements before `lower_bound(x)`. -/
def below (set : OrderedSet α) (x : α) : List α := set.elems.takeWhile (· < x)

/-- The elements from `lower_bound(x)` on. -/
def above (set : OrderedSet α) (x : α) : OrderedSet α :=
  ⟨set.elems.dropWhile (· < x), set.sorted.sublist (List.dropWhile_sublist _)⟩

variable {set : OrderedSet α} {x y : α}

theorem nodup (set : OrderedSet α) : set.elems.Nodup := set.sorted.imp ne_of_lt

@[simp] theorem mem_elems : x ∈ set.elems ↔ x ∈ set := Iff.rfl

@[simp] theorem not_mem_empty : x ∉ (∅ : OrderedSet α) := List.not_mem_nil

@[simp] theorem mem_insert : y ∈ set.insert x ↔ y = x ∨ y ∈ set := by
  unfold insert
  split
  · rename_i present
    constructor
    · exact .inr
    · rintro (rfl | member)
      · exact present
      · exact member
  · exact List.mem_orderedInsert _

@[simp] theorem mem_erase : y ∈ set.erase x ↔ y ≠ x ∧ y ∈ set := set.nodup.mem_erase_iff

theorem insert_perm (fresh : x ∉ set) : (set.insert x).elems.Perm (x :: set.elems) := by
  unfold insert
  split
  · rename_i present
    exact absurd present fresh
  · exact List.perm_orderedInsert _ x set.elems

theorem erase_perm (present : x ∈ set) : set.elems.Perm (x :: (set.erase x).elems) :=
  List.perm_cons_erase present

theorem size_insert (fresh : x ∉ set) : (set.insert x).size = set.size + 1 := (insert_perm fresh).length_eq

theorem size_erase (present : x ∈ set) : set.size = (set.erase x).size + 1 := (erase_perm present).length_eq

theorem mem_first (least : set.first = some x) : x ∈ set := List.mem_of_mem_head? least

theorem below_append_above (set : OrderedSet α) (x : α) : set.below x ++ (set.above x).elems = set.elems :=
  List.takeWhile_append_dropWhile

theorem takeWhile_eq_filter {elems : List α} (sorted : elems.Pairwise (· < ·)) :
    elems.takeWhile (· < x) = elems.filter (· < x) := by
  induction elems with
  | nil => rfl
  | cons head tail hypothesis =>
    obtain ⟨least, rest⟩ := List.pairwise_cons.mp sorted
    by_cases less : head < x
    · rw [List.takeWhile_cons_of_pos (by simpa using less), List.filter_cons_of_pos (by simpa using less),
        hypothesis rest]
    · rw [List.takeWhile_cons_of_neg (by simpa using less), List.filter_cons_of_neg (by simpa using less), eq_comm,
        List.filter_eq_nil_iff]
      intro y member
      have above : x ≤ y := (not_lt.mp less).trans (le_of_lt (least y member))
      simpa using above

theorem below_eq_filter (set : OrderedSet α) (x : α) : set.below x = set.elems.filter (· < x) :=
  takeWhile_eq_filter set.sorted

theorem mem_below : y ∈ set.below x ↔ y ∈ set ∧ y < x := by
  rw [below_eq_filter, List.mem_filter, decide_eq_true_eq, mem_elems]

theorem mem_above (member : y ∈ set.above x) : y ∈ set ∧ x ≤ y := by
  have inside : y ∈ set.below x ++ (set.above x).elems := List.mem_append_right _ member
  have distinct := set.nodup
  rw [← below_append_above set x, List.nodup_append] at distinct
  rw [below_append_above] at inside
  refine ⟨inside, ?_⟩
  by_contra less
  exact distinct.2.2 y (mem_below.mpr ⟨inside, not_le.mp less⟩) y member rfl

theorem first_le (least : set.first = some x) (member : y ∈ set) : x ≤ y := by
  obtain ⟨elems, sorted⟩ := set
  cases elems with
  | nil => cases member
  | cons head tail =>
    cases least
    rcases List.mem_cons.mp member with rfl | later
    · exact le_refl _
    · exact le_of_lt ((List.pairwise_cons.mp sorted).1 y later)

theorem first_none (none : set.first = none) : y ∉ set := by
  have empty : set.elems = [] := List.head?_eq_none_iff.mp none
  rw [← mem_elems, empty]
  exact List.not_mem_nil

end OrderedSet

end Machine
