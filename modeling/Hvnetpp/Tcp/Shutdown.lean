import Hvnetpp.Tcp.Output

namespace Hvnetpp.Tcp

open Machine

variable {c d : TcpConnection} {s t : Session}

inductive Shut (s : Session) : Prop where
  | notYet (none : .shutdownWrite ∉ s.conn.syscalls)
      (waits : s.conn.state = .kDisconnecting → s.conn.outputBuffer.readable ≠ [])
  | issued (before : List Syscall) (split : s.conn.syscalls = before ++ [.shutdownWrite])
      (first : .shutdownWrite ∉ before) (all : accepted before = s.sent) (past : s.conn.state ≠ .kConnected)
      (idle : s.conn.state = .kDisconnecting → s.conn.channel.isWriting = false)

theorem Shut.initial (name : List UInt8) (sockfd : Nat) (writeComplete highWater : Bool) (highWaterMark : Nat) :
    Shut (Session.initial name sockfd writeComplete highWater highWaterMark) :=
  .notYet List.not_mem_nil fun state => by cases state

inductive Leaves (c d : TcpConnection) : Prop where
  | same (state : d.state = c.state) (syscalls : d.syscalls = c.syscalls) (buffer : d.outputBuffer = c.outputBuffer)
      (writing : d.channel.isWriting = c.channel.isWriting)
  | closes (state : d.state = .kDisconnected) (syscalls : d.syscalls = c.syscalls)

theorem Leaves.refl (c : TcpConnection) : Leaves c c := .same rfl rfl rfl rfl

theorem Leaves.handleClose (c : TcpConnection) : Leaves c c.handleClose.conn := .closes rfl (handleClose_syscalls c)

theorem Leaves.handleError (c : TcpConnection) (err : Nat) : Leaves c (c.handleError err).conn := by
  unfold TcpConnection.handleError
  split
  · exact .refl c
  · split
    · exact .handleClose c
    · exact .refl c

theorem Leaves.handleSocketError (c : TcpConnection) (err : Nat) : Leaves c (c.handleSocketError err).conn := by
  unfold TcpConnection.handleSocketError
  split
  · exact .handleError c err
  · exact .refl c

theorem Leaves.handleRead (c : TcpConnection) (result : ReadResult) : Leaves c (c.handleRead result).conn := by
  unfold TcpConnection.handleRead
  split
  · exact .refl c
  · split
    · exact .handleClose c
    · exact .same rfl rfl rfl rfl
    · exact .handleError c _

theorem Shut.leaves (shut : Shut s) (leaves : Leaves s.conn d) : Shut ⟨d, s.sent⟩ := by
  cases shut with
  | notYet none waits =>
    cases leaves with
    | same state syscalls buffer _ =>
      apply Shut.notYet
      · rw [syscalls]
        exact none
      · rw [state, buffer]
        exact waits
    | closes state syscalls =>
      apply Shut.notYet
      · rw [syscalls]
        exact none
      · rw [state]
        intro disconnecting
        cases disconnecting
  | issued before split first all past idle =>
    cases leaves with
    | same state syscalls _ writing =>
      refine .issued before (syscalls.trans split) first all ?_ ?_
      · rw [state]
        exact past
      · rw [state, writing]
        exact idle
    | closes state syscalls =>
      refine .issued before (syscalls.trans split) first all ?_ ?_
      · rw [state]
        decide
      · rw [state]
        intro disconnecting
        cases disconnecting

/-- A connected connection may still send: its half-close has not been issued. -/
theorem Shut.sendBuffer (shut : Shut s) (inv : Inv s) (data : List UInt8) {result : WriteResult}
    (possible : result.possible data.length = true) :
    Shut ⟨(s.conn.sendBuffer data result).conn, if s.conn.state = .kConnected then s.sent ++ data else s.sent⟩ := by
  unfold TcpConnection.sendBuffer
  split
  · rename_i connected
    cases shut with
    | notYet none _ =>
      cases inv with
      | live contents state opened =>
        obtain ⟨after, writes⟩ := opened.sendInLoop state data possible
        refine .notYet (writes.none none) ?_
        intro disconnecting
        cases after with
        | stays _ kept _ =>
          rw [kept, connected] at disconnecting
          cases disconnecting
        | closes off _ =>
          rw [off] at disconnecting
          cases disconnecting
      | closed off _ =>
        rw [off] at connected
        cases connected
    | issued _ _ _ _ past _ => exact absurd connected past
  · exact shut

theorem Shut.shutdown (shut : Shut s) (inv : Inv s) : Shut ⟨s.conn.shutdown, s.sent⟩ := by
  by_cases connected : s.conn.state = .kConnected
  · cases shut with
    | notYet none _ =>
      cases inv with
      | live contents state opened =>
        obtain ⟨disconnecting, after, ⟨empty, calls⟩ | ⟨waiting, calls⟩⟩ := opened.shutdown connected
        · refine .issued s.conn.syscalls calls none ?_ (by rw [disconnecting]; decide) fun _ => after.idle empty
          have intact := opened.intact
          rw [empty, List.append_nil] at intact
          exact intact
        · refine .notYet (by rw [calls]; exact none) fun _ => ?_
          rw [after.carries.readable]
          exact waiting
      | closed off _ =>
        rw [off] at connected
        cases connected
    | issued _ _ _ _ past _ => exact absurd connected past
  · rw [TcpConnection.shutdown, if_neg connected]
    exact shut

theorem Shut.handleWrite (shut : Shut s) (inv : Inv s) {result : WriteResult}
    (possible : result.possible s.conn.outputBuffer.readableBytes = true) :
    Shut ⟨(s.conn.handleWrite result).conn, s.sent⟩ := by
  cases inv with
  | live contents state opened =>
    cases shut with
    | notYet none waits =>
      obtain ⟨after, ⟨writes, kept⟩ | ⟨bytes, calls, all, disconnecting, idle⟩⟩ := opened.handleWrite possible
      · refine .notYet (writes.none none) fun disconnecting => kept disconnecting ?_
        cases after with
        | stays _ same _ =>
          rw [← opened.carries.readable]
          exact waits (same.symm.trans disconnecting)
        | closes off _ =>
          rw [off] at disconnecting
          cases disconnecting
      · exact .issued _ calls (by simp [none]) all (by rw [disconnecting]; decide) fun _ => idle
    | issued before split first all past idle =>
      have still : s.conn.handleWrite result = { conn := s.conn } := by
        unfold TcpConnection.handleWrite
        exact if_pos (.inr (idle (state.resolve_left past)))
      rw [still]
      exact .issued before split first all past idle
  | closed off _ =>
    rw [closed_handleWrite off]
    exact shut

theorem Shut.step (shut : Shut s) (inv : Inv s) {action : Action} (admitted : Public s action)
    (taken : Tcp.step s action = some t) : Shut t := by
  cases action <;> simp only [Tcp.step] at taken
  case sendInLoop => exact admitted.elim
  case send data result =>
    split at taken
    · rename_i possible
      cases taken
      rw [send_eq]
      split
      · rename_i empty
        rw [empty, List.append_nil, ite_self]
        exact shut
      · exact shut.sendBuffer inv data possible
    · cases taken
  case sendBuffer data result =>
    split at taken
    · rename_i possible
      cases taken
      exact shut.sendBuffer inv data possible
    · cases taken
  case shutdown =>
    cases taken
    exact shut.shutdown inv
  case handleRead result =>
    cases taken
    exact shut.leaves (.handleRead s.conn result)
  case handleWrite result =>
    split at taken
    · rename_i possible
      cases taken
      exact shut.handleWrite inv possible
    · cases taken
  case handleError err =>
    cases taken
    exact shut.leaves (.handleSocketError s.conn err)
  case handleClose =>
    cases taken
    exact shut.leaves (.handleClose s.conn)
  case connectDestroyed =>
    cases taken
    obtain ⟨state, syscalls, _⟩ := connectDestroyed_frame s.conn inv.quiet
    exact shut.leaves (.closes state syscalls)

/-- The half-close is issued at most once, when the socket has accepted all that was sent, nothing is written
    after it, and it has been issued whenever a connection that is shutting down has nothing left to write. -/
theorem half_close_after_flush {name : List UInt8} {sockfd : Nat} {writeComplete highWater : Bool}
    {highWaterMark : Nat}
    (run : Reaches step Public (Session.initial name sockfd writeComplete highWater highWaterMark) s) :
    s.conn.syscalls.count .shutdownWrite ≤ 1 ∧
    (∀ before after, s.conn.syscalls = before ++ .shutdownWrite :: after →
      accepted before = s.sent ∧ ∀ bytes, .write bytes ∉ after) ∧
    (s.conn.state = .kDisconnecting → s.conn.outputBuffer.readable = [] → .shutdownWrite ∈ s.conn.syscalls) := by
  have both : Inv s ∧ Shut s := by
    apply run.keeps ⟨Inv.initial _ _ _ _ _, Shut.initial _ _ _ _ _⟩
    intro earlier action later held admitted taken
    exact ⟨held.1.step taken, held.2.step held.1 admitted taken⟩
  cases both.2 with
  | notYet none waits =>
    refine ⟨by rw [List.count_eq_zero.mpr none]; decide, ?_, fun state empty => absurd empty (waits state)⟩
    intro before after split
    rw [split] at none
    exact absurd (List.mem_append_right _ List.mem_cons_self) none
  | issued before split first all past idle =>
    refine ⟨?_, ?_, fun _ _ => by rw [split]; simp⟩
    · rw [split, List.count_append, List.count_eq_zero.mpr first]
      decide
    · intro before' after split'
      rw [split] at split'
      obtain ⟨rfl, rfl⟩ := split_at_end first split'
      exact ⟨all, fun _ => List.not_mem_nil⟩

instance (s : Session) (action : Action) : Decidable (Public s action) :=
  match action with
  | .sendInLoop _ _ => isFalse id
  | .send _ _ | .sendBuffer _ _ | .shutdown | .handleRead _ | .handleWrite _ | .handleError _ | .handleClose
  | .connectDestroyed => isTrue trivial

/-- A shutdown while a byte waits: the half-close follows the write event that takes it. -/
theorem half_close_after_flush_pending : ∃ s : Session, s.conn.state = .kDisconnecting ∧
    s.conn.syscalls = [.write [1], .write [2], .shutdownWrite] ∧ s.conn.syscalls.count .shutdownWrite ≤ 1 ∧
    (∀ before after, s.conn.syscalls = before ++ .shutdownWrite :: after →
      accepted before = s.sent ∧ ∀ bytes, .write bytes ∉ after) := by
  have ran : (exec (guarded step Public) (Session.initial [] 5 true true 2)
      [.send [1, 2] (.wrote 1), .shutdown, .send [3] (.wrote 1), .handleWrite (.wrote 1)]).map
      (fun s => (s.conn.state, s.conn.syscalls)) =
      some (.kDisconnecting, [.write [1], .write [2], .shutdownWrite]) := by decide +kernel
  obtain ⟨s, reached, facts⟩ := Option.map_eq_some_iff.mp ran
  simp only [Prod.mk.injEq] at facts
  obtain ⟨once, flushed, _⟩ := half_close_after_flush (exec_guarded_reaches reached)
  exact ⟨s, facts.1, facts.2, once, flushed⟩

end Hvnetpp.Tcp
