import Mathlib.Data.List.Basic

namespace Machine

variable {α : Type*} {l data : List α} {i j : Nat}

/-- The elements at the positions from `i` up to and without `j`. -/
def segment (l : List α) (i j : Nat) : List α := (l.take j).drop i

/-- `data` stored from position `i` on. -/
def overwrite (l : List α) (i : Nat) (data : List α) : List α := l.take i ++ (data ++ l.drop (i + data.length))

theorem segment_length (bound : j ≤ l.length) : (segment l i j).length = j - i := by
  rw [segment, List.length_drop, List.length_take_of_le bound]

@[simp] theorem segment_self : segment l i i = [] := by
  rw [segment, List.drop_eq_nil_iff, List.length_take]
  exact Nat.min_le_left _ _

theorem segment_drop (k : Nat) : segment l (i + k) j = (segment l i j).drop k := by
  rw [segment, segment, List.drop_drop]

theorem overwrite_length (bound : i + data.length ≤ l.length) : (overwrite l i data).length = l.length := by
  simp only [overwrite, List.length_append, List.length_take, List.length_drop]
  omega

theorem overwrite_take (bound : i ≤ l.length) :
    (overwrite l i data).take (i + data.length) = l.take i ++ data := by
  have length : (l.take i ++ data).length = i + data.length := by
    rw [List.length_append, List.length_take_of_le bound]
  rw [overwrite, ← List.append_assoc, List.take_append_of_le_length (Nat.le_of_eq length.symm), ← length,
    List.take_length]

theorem segment_overwrite (data : List α) (le : i ≤ j) (bound : j ≤ l.length) :
    segment (overwrite l j data) i (j + data.length) = segment l i j ++ data := by
  rw [segment, overwrite_take bound, List.drop_append_of_le_length, segment]
  rwa [List.length_take_of_le bound]

theorem segment_append (bound : j ≤ l.length) : segment (l ++ data) i j = segment l i j := by
  rw [segment, segment, List.take_append_of_le_length bound]

theorem segment_take {k : Nat} (le : k ≤ j) : segment l i k = (segment l i j).take (k - i) := by
  rw [segment, segment, List.drop_take, List.drop_take, List.take_take, Nat.min_eq_left (by omega)]

theorem segment_overwrite_before {data : List α} (le : data.length ≤ i) (ordered : i ≤ j) (bound : j ≤ l.length) :
    segment (overwrite l (i - data.length) data) (i - data.length) j = data ++ segment l i j := by
  have start : (l.take (i - data.length)).length = i - data.length := List.length_take_of_le (by omega)
  have reach : i - data.length + data.length = i := by omega
  rw [segment, List.drop_take, overwrite, List.drop_append_of_le_length (by omega), List.drop_eq_nil_of_le (by omega),
    List.nil_append, reach, List.take_append, List.take_of_length_le (by omega), segment, List.drop_take]
  congr 2
  omega

/-- An element that stands only at the end of a list splits it there. -/
theorem split_at_end {x : α} {before after : List α} (absent : x ∉ l) (split : l ++ [x] = before ++ x :: after) :
    before = l ∧ after = [] := by
  rcases List.eq_nil_or_concat after with rfl | ⟨rest, last, rfl⟩
  · exact ⟨(List.append_inj' split rfl).1.symm, rfl⟩
  · rw [List.concat_eq_append, ← List.cons_append, ← List.append_assoc] at split
    rw [(List.append_inj' split rfl).1] at absent
    exact absurd (List.mem_append_right _ List.mem_cons_self) absent

end Machine
