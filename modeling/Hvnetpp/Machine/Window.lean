import Mathlib.Logic.Function.Basic
import Mathlib.Tactic.Common
import Mathlib.Order.Basic

namespace Machine

variable {κ β γ : Type*}

/-- An unbounded index reused every `cap` steps: indices less than a lap apart have different slots. -/
structure Cyclic (cap : Nat) (slot : Nat → κ) : Prop where
  period : ∀ i, slot (i + cap) = slot i
  distinct : ∀ i j, i < j → j < i + cap → slot i ≠ slot j

theorem Cyclic.ne {cap : Nat} {slot : Nat → κ} (cyclic : Cyclic cap slot) {first i j : Nat}
    (hi : first ≤ i) (hj : first ≤ j) (bi : i < first + cap) (bj : j < first + cap) (different : i ≠ j) :
    slot i ≠ slot j := by
  rcases Nat.lt_or_gt_of_ne different with less | more
  · exact cyclic.distinct i j less (by omega)
  · exact (cyclic.distinct j i more (by omega)).symm

/-- The lap of `log` that starts at `first` is what `memory` holds, each entry seen through `view`;
    the slots past the end of the log are blank. -/
def Holds (cap : Nat) (slot : Nat → κ) (view : γ → β) (blank : β) (first : Nat) (log : List γ)
    (memory : κ → β) : Prop :=
  ∀ i, first ≤ i → i < first + cap → memory (slot i) = (log[i]?).elim blank view

variable {cap : Nat} {slot : Nat → κ} {view : γ → β} {blank : β} {first : Nat} {log : List γ}
  {memory : κ → β}

theorem Holds.start (cap : Nat) (slot : Nat → κ) (view : γ → β) (blank : β) :
    Holds cap slot view blank 0 [] fun _ => blank := by
  intro i _ _
  rfl

theorem Holds.entry (held : Holds cap slot view blank first log memory) {i : Nat} {entry : γ}
    (lower : first ≤ i) (upper : i < first + cap) (present : log[i]? = some entry) :
    memory (slot i) = view entry := by
  rw [held i lower upper, present]
  rfl

theorem Holds.append (held : Holds cap slot view blank first log memory) (entry : γ)
    (looks : view entry = blank) : Holds cap slot view blank first (log ++ [entry]) memory := by
  intro i lower upper
  rw [held i lower upper]
  rcases Nat.lt_trichotomy i log.length with inside | last | outside
  · rw [List.getElem?_append_left inside]
  · subst last
    simp [looks]
  · rw [List.getElem?_eq_none (by omega), List.getElem?_eq_none (by simp; omega)]

theorem Holds.set [DecidableEq κ] (held : Holds cap slot view blank first log memory)
    (cyclic : Cyclic cap slot) {i : Nat} (lower : first ≤ i) (upper : i < first + cap)
    (inside : i < log.length) (change : γ → γ) (value : β)
    (seen : ∀ entry, log[i]? = some entry → view (change entry) = value) :
    Holds cap slot view blank first (log.modify i change) (Function.update memory (slot i) value) := by
  intro j lowerj upperj
  by_cases same : j = i
  · subst same
    have present : log[j]? = some log[j] := List.getElem?_eq_getElem inside
    rw [Function.update_self, List.getElem?_modify_eq, present]
    exact (seen _ present).symm
  · rw [Function.update_of_ne (cyclic.ne lowerj lower upperj upper same), held j lowerj upperj,
      List.getElem?_modify_ne change log (Ne.symm same)]

theorem Holds.advance (held : Holds cap slot view blank first log memory) (cyclic : Cyclic cap slot)
    (within : log.length ≤ first + cap) (positive : 0 < cap)
    (blanked : ∀ entry, log[first]? = some entry → view entry = blank) :
    Holds cap slot view blank (first + 1) log memory := by
  intro i lower upper
  by_cases inside : i < first + cap
  · exact held i (by omega) inside
  · have last : i = first + cap := by omega
    subst last
    rw [cyclic.period, held first (Nat.le_refl _) (by omega), List.getElem?_eq_none within]
    cases present : log[first]? with
    | none => rfl
    | some entry => exact blanked entry present

end Machine
