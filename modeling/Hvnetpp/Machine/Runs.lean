import Mathlib.Logic.Relation
import Mathlib.Tactic.Common

namespace Machine

variable {σ α : Type*} {step : σ → α → Option σ} {ok : σ → α → Prop}

/-- One step, by any action that is enabled and meets `ok` in the state it starts from. -/
def Move (step : σ → α → Option σ) (ok : σ → α → Prop) (before after : σ) : Prop :=
  ∃ action, ok before action ∧ step before action = some after

/-- Some run leads from the first state to the second, every action of it meeting `ok`. -/
def Reaches (step : σ → α → Option σ) (ok : σ → α → Prop) : σ → σ → Prop :=
  Relation.ReflTransGen (Move step ok)

def Any (_ : σ) (_ : α) : Prop := True

theorem Reaches.refl (state : σ) : Reaches step ok state state := Relation.ReflTransGen.refl

theorem Reaches.trans {first second third : σ} (left : Reaches step ok first second)
    (right : Reaches step ok second third) : Reaches step ok first third :=
  Relation.ReflTransGen.trans left right

theorem Reaches.next {first second third : σ} {action : α} (run : Reaches step ok first second)
    (admitted : ok second action) (taken : step second action = some third) :
    Reaches step ok first third :=
  Relation.ReflTransGen.tail run ⟨action, admitted, taken⟩

/-- What every admitted step keeps, every run keeps. -/
theorem Reaches.keeps {inv : σ → Prop} {first last : σ} (run : Reaches step ok first last)
    (start : inv first)
    (kept : ∀ before action after, inv before → ok before action →
      step before action = some after → inv after) : inv last := by
  induction run with
  | refl => exact start
  | tail _ move held =>
    obtain ⟨action, admitted, taken⟩ := move
    exact kept _ action _ held admitted taken

/-- A reflexive and transitive relation that holds across every admitted step holds across a run. -/
theorem Reaches.relates {rel : σ → σ → Prop} {first last : σ} (run : Reaches step ok first last)
    (inv : σ → Prop) (start : inv first) (reflexive : ∀ state, rel state state)
    (transitive : ∀ a b c, rel a b → rel b c → rel a c)
    (kept : ∀ before action after, inv before → ok before action →
      step before action = some after → inv after ∧ rel before after) : rel first last := by
  have both : inv last ∧ rel first last := by
    induction run with
    | refl => exact ⟨start, reflexive first⟩
    | tail _ move held =>
      obtain ⟨action, admitted, taken⟩ := move
      obtain ⟨next, related⟩ := kept _ action _ held.1 admitted taken
      exact ⟨next, transitive _ _ _ held.2 related⟩
  exact both.2

theorem Reaches.weaken {ok' : σ → α → Prop} {first last : σ} (run : Reaches step ok first last)
    (weaker : ∀ state action, ok state action → ok' state action) : Reaches step ok' first last := by
  induction run with
  | refl => exact .refl _
  | tail _ move held =>
    obtain ⟨action, admitted, taken⟩ := move
    exact held.next (weaker _ _ admitted) taken

/-- The run along a list of actions; `none` as soon as one is not enabled. -/
def exec (step : σ → α → Option σ) (state : σ) : List α → Option σ
  | [] => some state
  | action :: rest => (step state action).bind fun next => exec step next rest

@[simp] theorem exec_nil (state : σ) : exec step state [] = some state := rfl

theorem exec_cons (state : σ) (action : α) (rest : List α) :
    exec step state (action :: rest) = (step state action).bind fun next => exec step next rest := rfl

/-- The form in which `simp` computes a run: it does not look at the rest before the step is known. -/
@[simp] theorem exec_cons_match (state : σ) (action : α) (rest : List α) :
    exec step state (action :: rest) =
      match step state action with
      | some next => exec step next rest
      | none => none := by
  rw [exec_cons]
  cases step state action <;> rfl

theorem exec_append (state : σ) (first second : List α) :
    exec step state (first ++ second) = (exec step state first).bind fun next => exec step next second := by
  induction first generalizing state with
  | nil => rfl
  | cons action rest held =>
    rw [List.cons_append, exec_cons, exec_cons, Option.bind_assoc]
    exact congrArg _ (funext fun next => held next)

/-- `step` restricted to the actions that meet `ok`. -/
def guarded (step : σ → α → Option σ) (ok : σ → α → Prop) [∀ s a, Decidable (ok s a)]
    (state : σ) (action : α) : Option σ :=
  if ok state action then step state action else none

theorem exec_guarded_reaches [∀ s a, Decidable (ok s a)] {first last : σ} {actions : List α}
    (ran : exec (guarded step ok) first actions = some last) : Reaches step ok first last := by
  induction actions generalizing first with
  | nil => cases ran; exact .refl _
  | cons action rest held =>
    rw [exec_cons, Option.bind_eq_some_iff] at ran
    obtain ⟨middle, taken, ran⟩ := ran
    unfold guarded at taken
    split at taken
    · rename_i admitted
      exact ((Reaches.refl first).next admitted taken).trans (held ran)
    · cases taken

theorem exec_reaches {first last : σ} {actions : List α}
    (ran : exec step first actions = some last) : Reaches step Any first last := by
  induction actions generalizing first with
  | nil => cases ran; exact .refl _
  | cons action rest held =>
    rw [exec_cons, Option.bind_eq_some_iff] at ran
    obtain ⟨middle, taken, ran⟩ := ran
    exact ((Reaches.refl first).next trivial taken).trans (held ran)

end Machine
