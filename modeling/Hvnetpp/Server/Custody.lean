import Hvnetpp.Server.Acceptor

namespace Hvnetpp.Server

/-- Every descriptor obtained so far is closed once or held once, and no other is either. -/
def Balanced (d : Descriptors) (holders : Nat → Nat) : Prop :=
  ∀ fd, d.closings fd + holders fd = if fd < d.obtained then 1 else 0

variable {d : Descriptors} {holders after : Nat → Nat}

theorem Balanced.once (balanced : Balanced d holders) (fd : Nat) : d.closings fd ≤ 1 := by
  have sum := balanced fd
  split at sum <;> omega

theorem Balanced.congr (balanced : Balanced d holders) (same : ∀ fd, after fd = holders fd) : Balanced d after := by
  intro fd
  rw [same fd]
  exact balanced fd

theorem Balanced.none : Balanced .none fun _ => 0 := fun fd => (if_neg (Nat.not_lt_zero fd)).symm

theorem Balanced.acquire (balanced : Balanced d holders)
    (gains : ∀ fd, after fd = holders fd + if fd = d.obtained then 1 else 0) : Balanced d.acquire after := by
  intro fd
  have sum := balanced fd
  have gain := gains fd
  show d.closings fd + after fd = if fd < d.obtained + 1 then 1 else 0
  by_cases own : fd = d.obtained
  · rw [if_neg (by omega)] at sum
    rw [if_pos own] at gain
    rw [if_pos (by omega)]
    omega
  · rw [if_neg own] at gain
    split at sum
    · rw [if_pos (by omega)]
      omega
    · rw [if_neg (by omega)]
      omega

theorem Balanced.close (balanced : Balanced d holders) {fd : Nat}
    (loses : ∀ other, holders other = after other + if other = fd then 1 else 0) : Balanced (d.close fd) after := by
  intro other
  have sum := balanced other
  rw [loses other] at sum
  show Function.update d.closings fd (d.closings fd + 1) other + after other = if other < d.obtained then 1 else 0
  by_cases same : other = fd
  · subst same
    rw [Function.update_self]
    rw [if_pos rfl] at sum
    omega
  · rw [Function.update_of_ne same]
    rw [if_neg same] at sum
    omega

/-- How many times a member that may hold a descriptor holds this one. -/
def held (member : Option Nat) (fd : Nat) : Nat := if member = some fd then 1 else 0

theorem held_pos {member : Option Nat} {fd : Nat} : 0 < held member fd ↔ member = some fd := by
  unfold held
  split
  · exact ⟨fun _ => by assumption, fun _ => Nat.one_pos⟩
  · exact ⟨fun no => absurd no (Nat.lt_irrefl 0), fun same => absurd same (by assumption)⟩

theorem Balanced.closeOpen (balanced : Balanced d holders) {member : Option Nat}
    (loses : ∀ fd, holders fd = after fd + held member fd) : Balanced (d.closeOpen member) after := by
  cases member with
  | none => exact balanced.congr fun fd => (loses fd).symm
  | some number =>
    apply balanced.close
    intro fd
    rw [loses fd, held]
    simp only [Option.some.injEq, eq_comm]

/-- A descriptor that is closed right after it was obtained. -/
theorem Balanced.discard (balanced : Balanced d holders) : Balanced (d.acquire.close d.obtained) holders := by
  have opened : Balanced d.acquire fun fd => holders fd + if fd = d.obtained then 1 else 0 :=
    balanced.acquire fun _ => rfl
  exact opened.close fun _ => rfl

namespace Acceptor

def held (a : Acceptor) (fd : Nat) : Nat := Server.held a.acceptSocket fd + Server.held a.idleFd fd

/-- One of the two members holds the descriptor. -/
def Has (a : Acceptor) (fd : Nat) : Prop := a.acceptSocket = some fd ∨ a.idleFd = some fd

theorem held_pos {a : Acceptor} {fd : Nat} : 0 < a.held fd ↔ a.Has fd := by
  rw [held, Nat.add_pos_iff_pos_or_pos, Server.held_pos, Server.held_pos, Has]

/-- The channel is as `listen` makes it, for the socket, and an acceptor that does not listen has no socket. -/
structure Shaped (a : Acceptor) : Prop where
  channel : ∀ channel ∈ a.acceptChannel, channel = newChannel ∧ a.acceptSocket.isSome = true
  socket : a.listening = false → a.acceptSocket = none

variable {a : Acceptor} {rest : Nat → Nat}

theorem openIdleFd_balanced (balanced : Balanced d fun fd => rest fd + Server.held a.acceptSocket fd)
    (opened : Bool) :
    Balanced (a.openIdleFd d opened).2 fun fd => rest fd + (a.openIdleFd d opened).1.held fd := by
  unfold openIdleFd
  cases opened with
  | false => exact balanced
  | true =>
    apply balanced.acquire
    intro fd
    simp only [held, Server.held, Option.some.injEq, eq_comm, ↓reduceIte]
    omega

theorem create_balanced (balanced : Balanced d rest) (opened : Bool) :
    Balanced (create d opened).2 fun fd => rest fd + (create d opened).1.held fd :=
  openIdleFd_balanced balanced opened

theorem create_shaped (d : Descriptors) (opened : Bool) : Shaped (create d opened).1 := by
  unfold create openIdleFd
  cases opened <;> exact ⟨(fun _ none => nomatch none), fun _ => rfl⟩

theorem listen_balanced (balanced : Balanced d fun fd => rest fd + a.held fd) (shaped : Shaped a)
    (result : ListenResult) :
    Balanced (a.listen d result).2.2 (fun fd => rest fd + (a.listen d result).2.1.held fd) ∧
      Shaped (a.listen d result).2.1 := by
  rcases listen_cases a d result with ⟨same, _⟩ | ⟨off, same | same | same⟩
  · rw [same]
    exact ⟨balanced, shaped⟩
  · rw [same]
    exact ⟨balanced, shaped⟩
  · rw [same]
    exact ⟨balanced.discard, shaped⟩
  · rw [same]
    refine ⟨balanced.acquire ?_, ⟨fun channel member => ⟨(Option.some.inj member).symm, rfl⟩, fun no => nomatch no⟩⟩
    intro fd
    have none := shaped.socket off
    simp only [held, Server.held, none, Option.some.injEq, eq_comm, reduceCtorEq, ↓reduceIte]
    omega

theorem shed_balanced (balanced : Balanced d fun fd => rest fd + a.held fd) (shaped : Shaped a)
    (accepted reopened : Bool) :
    Balanced (a.shed d accepted reopened).2 (fun fd => rest fd + (a.shed d accepted reopened).1.held fd) ∧
      Shaped (a.shed d accepted reopened).1 := by
  have without : Balanced (d.closeOpen a.idleFd) fun fd => rest fd + Server.held a.acceptSocket fd := by
    apply balanced.closeOpen
    intro fd
    simp only [held]
    omega
  constructor
  · apply openIdleFd_balanced
    cases accepted with
    | false => exact without
    | true => exact without.discard
  · unfold shed openIdleFd
    cases reopened <;> exact ⟨shaped.channel, shaped.socket⟩

end Acceptor

end Hvnetpp.Server
