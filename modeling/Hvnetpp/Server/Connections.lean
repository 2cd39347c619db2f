import Mathlib.Data.List.AList
import Hvnetpp.Machine.Runs
import Hvnetpp.Server.Names

namespace Hvnetpp.Server

open Machine

/-- The members of a `TcpServer` that name and list its connections; `κ` is the type of the pointers. -/
structure TcpServer (κ : Type*) where
  name : Bytes
  nextConnId : Nat
  connections : AList fun _ : Bytes => κ

namespace TcpServer

variable {κ : Type*}

def create (name : Bytes) : TcpServer κ := { name := name, nextConnId := 1, connections := ∅ }

/-- The name `newConnection` gives to the connection it makes next. -/
def nextName (server : TcpServer κ) : Bytes := connName server.name server.nextConnId

def newConnection (server : TcpServer κ) (conn : κ) : TcpServer κ :=
  { server with
    nextConnId := server.nextConnId + 1
    connections := server.connections.insert server.nextName conn }

def removeConnectionInLoop (server : TcpServer κ) (name : Bytes) : TcpServer κ :=
  { server with connections := server.connections.erase name }

/-- The number of entries `removeConnectionInLoop` erases. -/
def erased (server : TcpServer κ) (name : Bytes) : Nat := if name ∈ server.connections then 1 else 0

end TcpServer

/-- A connection as its server sees it. The number tells the objects apart. -/
structure Accepted where
  number : Nat
  name : Bytes
  deriving DecidableEq, Repr

/-- A server with the connections it has accepted and not yet removed. `failed` records that
    `removeConnectionInLoop` has not erased exactly one entry. -/
structure State where
  server : TcpServer Accepted
  alive : List Accepted
  failed : Bool

def State.initial (name : Bytes) : State := { server := .create name, alive := [], failed := false }

inductive Action where
  | newConnection
  | removeConnectionInLoop (conn : Accepted)
  deriving DecidableEq, Repr

/-- `nextConnId_` is an `int`. -/
def step (s : State) : Action → Option State
  | .newConnection =>
    if s.server.nextConnId < 2 ^ 31 then
      let conn : Accepted := ⟨s.server.nextConnId, s.server.nextName⟩
      some { s with server := s.server.newConnection conn, alive := s.alive ++ [conn] }
    else none
  | .removeConnectionInLoop conn =>
    if conn ∈ s.alive then
      some { s with
        server := s.server.removeConnectionInLoop conn.name
        alive := s.alive.erase conn
        failed := s.failed || decide (s.server.erased conn.name ≠ 1) }
    else none

/-- The connections alive have different names, the map has exactly these, and every removal has found
    its entry. -/
structure Faithful (s : State) : Prop where
  distinct : (s.alive.map Accepted.name).Nodup
  exact : ∀ name conn, s.server.connections.lookup name = some conn ↔ conn ∈ s.alive ∧ conn.name = name
  sound : s.failed = false

def AtMost (accepts : Nat) (s : State) : Action → Prop
  | .newConnection => s.server.nextConnId ≤ accepts
  | .removeConnectionInLoop _ => True

instance (accepts : Nat) (s : State) (action : Action) : Decidable (AtMost accepts s action) :=
  match action with
  | .newConnection => inferInstanceAs (Decidable (s.server.nextConnId ≤ accepts))
  | .removeConnectionInLoop _ => isTrue trivial

variable {name : Bytes} {accepts : Nat} {s t : State} {conn : Accepted}

structure Numbered (name : Bytes) (accepts : Nat) (s : State) : Prop where
  server : s.server.name = name
  numbers : (s.alive.map Accepted.number).Nodup
  named : ∀ conn ∈ s.alive, conn.name = connName name conn.number ∧ 0 < conn.number ∧
    conn.number < s.server.nextConnId
  bound : s.server.nextConnId ≤ accepts + 1
  positive : 0 < s.server.nextConnId

theorem Numbered.initial (name : Bytes) (accepts : Nat) : Numbered name accepts (State.initial name) where
  server := rfl
  numbers := List.nodup_nil
  named := by intro conn member; cases member
  bound := Nat.le_add_left 1 accepts
  positive := Nat.one_pos

theorem step_newConnection (taken : step s .newConnection = some t) :
    s.server.nextConnId < 2 ^ 31 ∧ t = { s with
      server := s.server.newConnection ⟨s.server.nextConnId, s.server.nextName⟩
      alive := s.alive ++ [⟨s.server.nextConnId, s.server.nextName⟩] } := by
  simp only [step] at taken
  split at taken
  · rename_i room
    exact ⟨room, by cases taken; rfl⟩
  · cases taken

theorem step_removeConnectionInLoop (taken : step s (.removeConnectionInLoop conn) = some t) :
    conn ∈ s.alive ∧ t = { s with
      server := s.server.removeConnectionInLoop conn.name
      alive := s.alive.erase conn
      failed := s.failed || decide (s.server.erased conn.name ≠ 1) } := by
  simp only [step] at taken
  split at taken
  · rename_i member
    exact ⟨member, by cases taken; rfl⟩
  · cases taken

theorem Numbered.step (numbered : Numbered name accepts s) {action : Action} (admitted : AtMost accepts s action)
    (taken : Server.step s action = some t) : Numbered name accepts t := by
  cases action with
  | newConnection =>
    obtain ⟨_, rfl⟩ := step_newConnection taken
    refine ⟨numbered.server, ?_, ?_, Nat.succ_le_succ admitted, Nat.succ_pos _⟩
    · rw [List.map_append, List.nodup_append]
      refine ⟨numbered.numbers, List.nodup_singleton _, ?_⟩
      intro number member fresh last
      obtain ⟨conn, alive, rfl⟩ := List.mem_map.mp member
      have older := (numbered.named conn alive).2.2
      rw [List.map_singleton, List.mem_singleton] at last
      subst last
      exact Nat.ne_of_lt older
    · intro conn member
      rcases List.mem_append.mp member with alive | last
      · obtain ⟨own, first, older⟩ := numbered.named conn alive
        exact ⟨own, first, Nat.lt_succ_of_lt older⟩
      · rw [List.mem_singleton.mp last]
        exact ⟨by rw [TcpServer.nextName, numbered.server], numbered.positive, Nat.lt_succ_self _⟩
  | removeConnectionInLoop conn =>
    obtain ⟨_, rfl⟩ := step_removeConnectionInLoop taken
    refine ⟨numbered.server, ?_, ?_, numbered.bound, numbered.positive⟩
    · exact numbered.numbers.sublist (List.erase_sublist.map _)
    · exact fun other member => numbered.named other (List.mem_of_mem_erase member)

def Distinct (name : Bytes) (accepts : Nat) : Prop :=
  ∀ first second, 0 < first → first < second → second ≤ accepts → connName name first ≠ connName name second

theorem distinct_iff : Distinct name accepts ↔ accepts ≤ 1 ∨ Fits name accepts := by
  constructor
  · intro distinct
    by_contra neither
    rw [not_or, Nat.not_le] at neither
    obtain ⟨first, second, positive, less, bound, same⟩ := connName_collides neither.1 neither.2
    exact distinct first second positive less bound same
  · rintro (one | fits) first second positive less bound same
    · omega
    · exact Nat.ne_of_lt less (fits.injective (by omega) bound same)

theorem Faithful.initial (name : Bytes) : Faithful (State.initial name) where
  distinct := List.nodup_nil
  exact := by
    intro key conn
    constructor
    · intro found
      cases found
    · rintro ⟨member, _⟩
      cases member
  sound := rfl

theorem Faithful.newConnection (faithful : Faithful s) (fresh : ∀ conn ∈ s.alive, conn.name ≠ s.server.nextName)
    (taken : Server.step s .newConnection = some t) : Faithful t := by
  obtain ⟨_, rfl⟩ := step_newConnection taken
  refine ⟨?_, ?_, faithful.sound⟩
  · rw [List.map_append, List.nodup_append]
    refine ⟨faithful.distinct, List.nodup_singleton _, ?_⟩
    intro key member last same
    obtain ⟨conn, alive, rfl⟩ := List.mem_map.mp member
    rw [List.map_singleton, List.mem_singleton] at same
    intro equal
    exact fresh conn alive (equal.trans same)
  · intro key conn
    by_cases own : key = s.server.nextName
    · subst own
      simp only [TcpServer.newConnection, AList.lookup_insert, Option.some.injEq]
      constructor
      · rintro rfl
        exact ⟨List.mem_append_right _ (List.mem_singleton_self _), rfl⟩
      · rintro ⟨member, same⟩
        rcases List.mem_append.mp member with alive | last
        · exact absurd same (fresh conn alive)
        · exact (List.mem_singleton.mp last).symm
    · simp only [TcpServer.newConnection, AList.lookup_insert_ne own, faithful.exact, List.mem_append,
        List.mem_singleton]
      constructor
      · exact fun found => ⟨.inl found.1, found.2⟩
      · rintro ⟨alive | rfl, same⟩
        · exact ⟨alive, same⟩
        · exact absurd same.symm own

theorem Faithful.removeConnectionInLoop (faithful : Faithful s)
    (taken : Server.step s (.removeConnectionInLoop conn) = some t) : Faithful t := by
  obtain ⟨member, rfl⟩ := step_removeConnectionInLoop taken
  have nodup : s.alive.Nodup := List.Nodup.of_map _ faithful.distinct
  refine ⟨?_, ?_, ?_⟩
  · exact faithful.distinct.sublist (List.erase_sublist.map _)
  · intro key other
    rw [nodup.mem_erase_iff]
    by_cases own : key = conn.name
    · subst own
      simp only [TcpServer.removeConnectionInLoop, AList.lookup_erase]
      constructor
      · intro found
        cases found
      · rintro ⟨⟨different, alive⟩, same⟩
        exact absurd (List.inj_on_of_nodup_map faithful.distinct alive member same) different
    · simp only [TcpServer.removeConnectionInLoop, AList.lookup_erase_ne own, faithful.exact]
      constructor
      · rintro ⟨alive, same⟩
        refine ⟨⟨?_, alive⟩, same⟩
        rintro rfl
        exact own same.symm
      · exact fun found => ⟨found.1.2, found.2⟩
  · have listed : conn.name ∈ s.server.connections := by
      rw [← AList.lookup_isSome, (faithful.exact conn.name conn).mpr ⟨member, rfl⟩]
      rfl
    simp [faithful.sound, TcpServer.erased, listed]

theorem Distinct.faithful (distinct : Distinct name accepts)
    (run : Reaches step (AtMost accepts) (State.initial name) s) : Faithful s := by
  have both : Numbered name accepts s ∧ Faithful s := by
    apply run.keeps ⟨Numbered.initial name accepts, Faithful.initial name⟩
    intro before action after held admitted taken
    refine ⟨held.1.step admitted taken, ?_⟩
    cases action with
    | newConnection =>
      apply held.2.newConnection _ taken
      intro conn alive same
      obtain ⟨own, positive, older⟩ := held.1.named conn alive
      rw [own, TcpServer.nextName, held.1.server] at same
      exact distinct _ _ positive older admitted same
    | removeConnectionInLoop conn => exact held.2.removeConnectionInLoop taken
  exact both.2

theorem accepts_all (name : Bytes) (bound : accepts < 2 ^ 31) {n : Nat} (le : n ≤ accepts) :
    ∃ s, Reaches step (AtMost accepts) (State.initial name) s ∧ s.server.name = name ∧
      s.server.nextConnId = n + 1 ∧ s.alive = (List.range n).map fun i => ⟨i + 1, connName name (i + 1)⟩ := by
  induction n with
  | zero => exact ⟨State.initial name, .refl _, rfl, rfl, rfl⟩
  | succ n hypothesis =>
    obtain ⟨s, run, own, next, alive⟩ := hypothesis (by omega)
    have taken : step s .newConnection = some { s with
        server := s.server.newConnection ⟨s.server.nextConnId, s.server.nextName⟩
        alive := s.alive ++ [⟨s.server.nextConnId, s.server.nextName⟩] } := by
      apply if_pos
      omega
    refine ⟨_, run.next ?_ taken, own, ?_, ?_⟩
    · show s.server.nextConnId ≤ accepts
      omega
    · rw [TcpServer.newConnection, next]
    · rw [List.range_succ, List.map_append, alive, next, TcpServer.nextName, own, next]
      rfl

/-- For a server of the given name, any history of at most `accepts` accepted connections leaves the map
    faithful exactly if the buffer has room for the name and all the numbers. -/
theorem connections_faithful_iff (name : Bytes) (accepts : Nat) (bound : accepts < 2 ^ 31) :
    (∀ s, Reaches step (AtMost accepts) (State.initial name) s → Faithful s) ↔
      accepts ≤ 1 ∨ (cString name).length + 2 + (Nat.digits 10 accepts).length ≤ 63 := by
  rw [← Fits, ← distinct_iff]
  constructor
  · intro faithful first second positive less le same
    obtain ⟨s, run, _, _, alive⟩ := accepts_all name bound (Nat.le_refl accepts)
    have distinct := (faithful s run).distinct
    rw [alive, List.map_map] at distinct
    have injective := List.inj_on_of_nodup_map distinct
    have equal : first - 1 = second - 1 := by
      apply injective (List.mem_range.mpr (by omega)) (List.mem_range.mpr (by omega))
      simp only [Function.comp_apply, Nat.sub_add_cancel positive, Nat.sub_add_cancel (positive.trans less)]
      exact same
    omega
  · exact fun distinct s run => distinct.faithful run

/-- A server named `echo` has room for a thousand connections. -/
theorem connections_faithful_echo : ∃ s : State, s.alive =
    [⟨1, connName [101, 99, 104, 111] 1⟩, ⟨2, connName [101, 99, 104, 111] 2⟩] ∧ Faithful s := by
  have ran : (exec (guarded step (AtMost 1000)) (State.initial [101, 99, 104, 111])
      [.newConnection, .newConnection]).map State.alive =
      some [⟨1, connName [101, 99, 104, 111] 1⟩, ⟨2, connName [101, 99, 104, 111] 2⟩] := by decide
  obtain ⟨s, reached, alive⟩ := Option.map_eq_some_iff.mp ran
  have faithful := (connections_faithful_iff [101, 99, 104, 111] 1000 (by decide)).mpr (.inr (by decide))
  exact ⟨s, alive, faithful s (exec_guarded_reaches reached)⟩

/-- A name of 61 bytes leaves no room for the number: the second connection takes over the entry of the
    first, and when both are removed the second removal finds nothing. -/
theorem connection_overwritten : ∃ (s t : State) (first second : Accepted),
    Reaches step (AtMost 2) (State.initial (List.replicate 61 97)) s ∧ s.alive = [first, second] ∧
    first ≠ second ∧ first.name = second.name ∧ s.server.connections.lookup first.name = some second ∧
    exec step s [.removeConnectionInLoop first, .removeConnectionInLoop second] = some t ∧ t.failed = true := by
  let first : Accepted := ⟨1, connName (List.replicate 61 97) 1⟩
  let second : Accepted := ⟨2, connName (List.replicate 61 97) 2⟩
  have ran : ((exec (guarded step (AtMost 2)) (State.initial (List.replicate 61 97))
      [.newConnection, .newConnection]).bind fun s =>
        (exec step s [.removeConnectionInLoop first, .removeConnectionInLoop second]).map fun t =>
          (s.alive, s.server.connections.lookup first.name, t.failed)) =
      some ([first, second], some second, true) := by decide
  obtain ⟨s, reached, ran⟩ := Option.bind_eq_some_iff.mp ran
  obtain ⟨t, removed, facts⟩ := Option.map_eq_some_iff.mp ran
  simp only [Prod.mk.injEq] at facts
  exact ⟨s, t, first, second, exec_guarded_reaches reached, facts.1, by decide, by decide, facts.2.1, removed,
    facts.2.2⟩

end Hvnetpp.Server
