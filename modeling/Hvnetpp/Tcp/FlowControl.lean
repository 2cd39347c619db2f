import Hvnetpp.Tcp.Output

namespace Hvnetpp.Tcp

open Machine

variable {c d : TcpConnection} {sent contents data : List UInt8} {s t : Session}
  {name : List UInt8} {sockfd : Nat} {writeComplete highWater : Bool} {mark : Nat}

theorem Open.waiting (opened : Open c sent contents) : 0 < c.outputBuffer.readableBytes ↔ contents ≠ [] := by
  rw [opened.carries.length, List.length_pos_iff]

/-- Output waits exactly while the channel asks for write events, so `handleWrite` always has something to
    write, and a closed connection asks for no events. -/
theorem output_never_stranded
    (run : Reaches step Any (Session.initial name sockfd writeComplete highWater mark) s) :
    (s.conn.state = .kConnected ∨ s.conn.state = .kDisconnecting →
      (0 < s.conn.outputBuffer.readableBytes ↔ s.conn.channel.isWriting = true)) ∧
    (s.conn.state = .kDisconnected → s.conn.channel.events = kNoneEvent) ∧
    ∀ result, (s.conn.handleWrite result).conn.syscalls ≠ s.conn.syscalls → 0 < s.conn.outputBuffer.readableBytes := by
  have inv := reachable_inv run
  refine ⟨?_, inv.quiet, ?_⟩
  · intro live
    cases inv with
    | live contents _ opened => rw [opened.waiting, opened.writing]
    | closed off _ =>
      rw [off] at live
      cases live with
      | inl state => cases state
      | inr state => cases state
  · intro result wrote
    cases inv with
    | live contents _ opened =>
      rw [opened.waiting, ← opened.writing]
      by_contra idle
      apply wrote
      unfold TcpConnection.handleWrite
      rw [if_pos (.inr (Bool.not_eq_true _ ▸ idle))]
    | closed off _ =>
      rw [closed_handleWrite off] at wrote
      exact absurd rfl wrote

/-- A message waits when the connection is shut down, and the rest of it goes out. -/
theorem output_never_stranded_shutdown : ∃ s : Session, s.conn.state = .kDisconnecting ∧
    s.conn.outputBuffer.readable = [3] ∧ s.conn.channel.isWriting = true ∧
    (0 < s.conn.outputBuffer.readableBytes ↔ s.conn.channel.isWriting = true) := by
  have ran : (exec step (Session.initial [] 5 true true 2)
      [.send [1, 2, 3] (.wrote 1), .shutdown, .handleWrite (.failed EAGAIN), .handleWrite (.wrote 1)]).map
      (fun s => (s.conn.state, s.conn.outputBuffer.readable, s.conn.channel.isWriting)) =
      some (.kDisconnecting, [3], true) := by decide +kernel
  obtain ⟨s, reached, facts⟩ := Option.map_eq_some_iff.mp ran
  simp only [Prod.mk.injEq] at facts
  obtain ⟨state, readable, writing⟩ := facts
  exact ⟨s, state, readable, writing, (output_never_stranded (exec_reaches reached)).1 (.inr state)⟩

/-- What the user has set. -/
structure SameSettings (c d : TcpConnection) : Prop where
  writeComplete : d.writeCompleteCallback = c.writeCompleteCallback
  highWater : d.highWaterMarkCallback = c.highWaterMarkCallback
  mark : d.highWaterMark = c.highWaterMark

theorem SameSettings.refl (c : TcpConnection) : SameSettings c c := ⟨rfl, rfl, rfl⟩

theorem SameSettings.trans {e : TcpConnection} (first : SameSettings c d) (second : SameSettings d e) :
    SameSettings c e :=
  ⟨second.writeComplete.trans first.writeComplete, second.highWater.trans first.highWater,
    second.mark.trans first.mark⟩

theorem SameSettings.write (c : TcpConnection) (bytes : List UInt8) : SameSettings c (c.write bytes) := ⟨rfl, rfl, rfl⟩

theorem SameSettings.handleClose (c : TcpConnection) : SameSettings c c.handleClose.conn := by
  simp only [TcpConnection.handleClose, TcpConnection.check]
  split <;> exact ⟨rfl, rfl, rfl⟩

theorem SameSettings.handleError (c : TcpConnection) (err : Nat) : SameSettings c (c.handleError err).conn := by
  unfold TcpConnection.handleError
  split
  · exact .refl c
  · split
    · exact .handleClose c
    · exact .refl c

theorem SameSettings.shutdownInLoop (c : TcpConnection) : SameSettings c c.shutdownInLoop := by
  unfold TcpConnection.shutdownInLoop
  split <;> exact ⟨rfl, rfl, rfl⟩

theorem SameSettings.flushed (c : TcpConnection) (n : Nat) : SameSettings c (c.flushed n).conn := by
  simp only [TcpConnection.flushed]
  split
  · have drained : SameSettings c { c with
        outputBuffer := c.outputBuffer.retrieve n
        channel := c.channel.disableWriting } := ⟨rfl, rfl, rfl⟩
    split
    · exact drained.trans (.shutdownInLoop _)
    · exact drained
  · exact ⟨rfl, rfl, rfl⟩

theorem SameSettings.keep (c : TcpConnection) (remaining : List UInt8) (tasks : List Task) :
    SameSettings c (c.keep remaining tasks).conn := by
  unfold TcpConnection.keep
  split
  · dsimp only
    split <;> exact ⟨rfl, rfl, rfl⟩
  · exact .refl c

theorem SameSettings.sendInLoop (c : TcpConnection) (data : List UInt8) (result : WriteResult) :
    SameSettings c (c.sendInLoop data result).conn := by
  unfold TcpConnection.sendInLoop
  split
  · exact .refl c
  · split
    · cases result with
      | wrote n => exact (SameSettings.write c _).trans (.keep _ _ _)
      | failed errno =>
        dsimp only
        split
        · exact (SameSettings.write c []).trans (.handleError _ _)
        · exact (SameSettings.write c []).trans (.keep _ _ _)
    · exact .keep c data []

theorem SameSettings.sendBuffer (c : TcpConnection) (data : List UInt8) (result : WriteResult) :
    SameSettings c (c.sendBuffer data result).conn := by
  unfold TcpConnection.sendBuffer
  split
  · exact .sendInLoop c data result
  · exact .refl c

theorem SameSettings.handleWrite (c : TcpConnection) (result : WriteResult) :
    SameSettings c (c.handleWrite result).conn := by
  unfold TcpConnection.handleWrite
  split
  · exact .refl c
  · split
    · exact (SameSettings.write c []).trans (.handleError _ _)
    · exact (SameSettings.write c _).trans (.flushed _ _)
    · exact (SameSettings.write c []).trans (.handleError _ _)

theorem SameSettings.handleRead (c : TcpConnection) (result : ReadResult) :
    SameSettings c (c.handleRead result).conn := by
  unfold TcpConnection.handleRead
  split
  · exact .refl c
  · split
    · exact .handleClose c
    · exact ⟨rfl, rfl, rfl⟩
    · exact .handleError c _

theorem SameSettings.connectDestroyed (c : TcpConnection) : SameSettings c c.connectDestroyed := by
  have released : ∀ c : TcpConnection, SameSettings c c.release := by
    intro c
    unfold TcpConnection.release TcpConnection.closeSocket
    split <;> exact ⟨rfl, rfl, rfl⟩
  unfold TcpConnection.connectDestroyed
  split
  · have off : SameSettings c c.disconnect := ⟨rfl, rfl, rfl⟩
    exact off.trans (released _)
  · exact released c

theorem SameSettings.step {action : Action} (taken : Tcp.step s action = some t) : SameSettings s.conn t.conn := by
  cases action <;> simp only [Tcp.step] at taken
  case sendInLoop data result =>
    split at taken
    · cases taken
      exact .sendInLoop _ data result
    · cases taken
  case send data result =>
    split at taken
    · cases taken
      rw [send_eq]
      split
      · exact .refl _
      · exact .sendBuffer _ data result
    · cases taken
  case sendBuffer data result =>
    split at taken
    · cases taken
      exact .sendBuffer _ data result
    · cases taken
  case shutdown =>
    cases taken
    show SameSettings s.conn s.conn.shutdown
    unfold TcpConnection.shutdown
    split
    · have begun : SameSettings s.conn { s.conn with state := .kDisconnecting } := ⟨rfl, rfl, rfl⟩
      exact begun.trans (.shutdownInLoop _)
    · exact .refl _
  case handleRead result =>
    cases taken
    exact .handleRead _ result
  case handleWrite result =>
    split at taken
    · cases taken
      exact .handleWrite _ result
    · cases taken
  case handleError err =>
    cases taken
    show SameSettings s.conn (s.conn.handleSocketError err).conn
    unfold TcpConnection.handleSocketError
    split
    · exact .handleError _ err
    · exact .refl _
  case handleClose =>
    cases taken
    exact .handleClose _
  case connectDestroyed =>
    cases taken
    exact .connectDestroyed _

theorem SameSettings.run (run : Reaches Tcp.step Any s t) : SameSettings s.conn t.conn := by
  apply run.relates (fun _ => True) trivial
  · exact fun _ => .refl _
  · exact fun _ _ _ first second => first.trans second
  · exact fun _ _ _ _ _ taken => ⟨trivial, .step taken⟩

/-- The functors that an operation queues for the user's callbacks. -/
def Session.tasks (s : Session) : Action → List Task
  | .sendInLoop data result => (s.conn.sendInLoop data result).tasks
  | .send data result => (s.conn.send data result).tasks
  | .sendBuffer data result => (s.conn.sendBuffer data result).tasks
  | .handleRead result => (s.conn.handleRead result).tasks
  | .handleWrite result => (s.conn.handleWrite result).tasks
  | .handleError err => (s.conn.handleSocketError err).tasks
  | .handleClose => s.conn.handleClose.tasks
  | .shutdown => []
  | .connectDestroyed => []

/-- The bytes that were sent but that the socket has not accepted. -/
def Session.unsent (s : Session) : Nat := s.sent.length - (accepted s.conn.syscalls).length

/-- What the levels before and after a step call for: a completion if a `::write` was made and the socket now has
    everything that was sent, and a warning if the mark has been reached from below. -/
def expected (mark : Nat) (s t : Session) : List Task :=
  (if t.conn.syscalls ≠ s.conn.syscalls ∧ (accepted t.conn.syscalls).length = t.sent.length then [.writeComplete]
    else []) ++
  if s.unsent < mark ∧ mark ≤ t.unsent then [.highWaterMark t.unsent] else []

/-- Messages that are not empty, and write events. -/
def Streams : Action → Prop
  | .send data _ => data ≠ []
  | .sendBuffer data _ => data ≠ []
  | .handleWrite _ => True
  | .sendInLoop _ _ | .shutdown | .handleRead _ | .handleError _ | .handleClose | .connectDestroyed => False

theorem Open.unsent (opened : Open c sent contents) : (⟨c, sent⟩ : Session).unsent = contents.length := by
  have lengths := congrArg List.length opened.intact
  rw [List.length_append] at lengths
  show sent.length - (accepted c.syscalls).length = contents.length
  omega

/-- The same in terms of what waits in the output buffer. -/
theorem Open.expected_eq {sent' contents' : List UInt8} (opened : Open c sent contents)
    (after : Open d sent' contents') :
    expected mark ⟨c, sent⟩ ⟨d, sent'⟩ =
      (if d.syscalls ≠ c.syscalls ∧ contents'.length = 0 then [.writeComplete] else []) ++
      if contents.length < mark ∧ mark ≤ contents'.length then [.highWaterMark contents'.length] else [] := by
  have lengths := congrArg List.length after.intact
  rw [List.length_append] at lengths
  have complete : (accepted d.syscalls).length = sent'.length ↔ contents'.length = 0 := by omega
  simp only [expected, opened.unsent, after.unsent, complete]

/-- `sendInLoop` compares the mark with the length before the append and with the length after it. -/
theorem Open.keep_tasks (opened : Open c sent contents) (highWaterSet : c.highWaterMarkCallback = true)
    (remaining : List UInt8) (tasks : List Task) :
    (c.keep remaining tasks).tasks = tasks ++
      if contents.length < c.highWaterMark ∧ c.highWaterMark ≤ (contents ++ remaining).length then
        [.highWaterMark (contents ++ remaining).length]
      else [] := by
  have length := opened.carries.length
  rw [List.length_append]
  unfold TcpConnection.keep
  by_cases some : 0 < remaining.length
  · rw [if_pos some]
    dsimp only
    rw [length]
    by_cases crossed : contents.length < c.highWaterMark ∧ c.highWaterMark ≤ contents.length + remaining.length
    · rw [if_pos ⟨crossed.2, crossed.1, highWaterSet⟩, if_pos crossed]
    · rw [if_neg (fun crosses => crossed ⟨crosses.2.1, crosses.1⟩), if_neg crossed, List.append_nil]
  · rw [if_neg some, if_neg (by omega), List.append_nil]

/-- The end of `sendInLoop`, after a `::write` or without one: `tasks` is the completion, if it is due. -/
theorem Open.keep_expected {sent' : List UInt8} (before : Open c sent contents) (written : Open d sent' contents)
    (own : d.highWaterMark = mark) (highWaterSet : d.highWaterMarkCallback = true) (remaining : List UInt8)
    {tasks : List Task}
    (complete : tasks = if d.syscalls ≠ c.syscalls ∧ (contents ++ remaining).length = 0 then [.writeComplete] else []) :
    (d.keep remaining tasks).tasks = expected mark ⟨c, sent⟩ ⟨(d.keep remaining tasks).conn, sent' ++ remaining⟩ := by
  rw [before.expected_eq (written.keep remaining tasks), written.keep_tasks highWaterSet, keep_syscalls, own,
    ← complete]

theorem handleError_closes (live : c.state = .kConnected ∨ c.state = .kDisconnecting) {err : Nat}
    (fatal : ¬ (err = 0 ∨ err = EAGAIN ∨ err = EWOULDBLOCK ∨ err = EINTR)) :
    (c.handleError err).conn.state = .kDisconnected := by
  unfold TcpConnection.handleError
  rw [if_neg fatal, if_pos live]
  rfl

theorem append_ne_self {calls more : List Syscall} (some : more ≠ []) : calls ++ more ≠ calls := by
  intro same
  exact some (List.append_right_eq_self.mp same)

theorem write_syscalls (c : TcpConnection) (bytes : List UInt8) : (c.write bytes).syscalls ≠ c.syscalls :=
  append_ne_self (List.cons_ne_nil _ _)

theorem Open.sendInLoop_tasks (opened : Open c sent contents) (own : c.highWaterMark = mark)
    (writeCompleteSet : c.writeCompleteCallback = true) (highWaterSet : c.highWaterMarkCallback = true)
    (live : c.state = .kConnected ∨ c.state = .kDisconnecting) (some : data ≠ []) {result : WriteResult}
    (possible : result.possible data.length = true)
    (open_ : (c.sendInLoop data result).conn.state ≠ .kDisconnected) :
    (c.sendInLoop data result).tasks = expected mark ⟨c, sent⟩ ⟨(c.sendInLoop data result).conn, sent ++ data⟩ := by
  have on : c.state ≠ .kDisconnected := by
    intro off
    rw [off] at live
    cases live with
    | inl state => cases state
    | inr state => cases state
  have positive : data.length ≠ 0 := fun zero => some (List.length_eq_zero_iff.mp zero)
  have unfinished : ∀ waiting : List UInt8, (waiting ++ data).length ≠ 0 := by
    intro waiting
    rw [List.length_append]
    omega
  unfold TcpConnection.sendInLoop at open_ ⊢
  rw [if_neg on] at open_ ⊢
  by_cases direct : c.channel.isWriting = false ∧ c.outputBuffer.readableBytes = 0
  · have empty : contents = [] := by
      apply List.length_eq_zero_iff.mp
      rw [← opened.carries.length]
      exact direct.2
    subst empty
    rw [if_pos direct] at open_ ⊢
    cases result with
    | wrote n =>
      have written := opened.write (data.take n)
      have whole : sent ++ data = sent ++ data.take n ++ data.drop n := by
        rw [List.append_assoc, List.take_append_drop]
      rw [whole]
      apply opened.keep_expected written own highWaterSet
      simp only [writeCompleteSet, and_true, ne_eq, write_syscalls, not_false_iff, true_and, List.nil_append,
        List.length_drop]
    | failed errno =>
      by_cases fatal : errno ≠ EWOULDBLOCK ∧ errno ≠ EAGAIN ∧ errno ≠ EINTR
      · exfalso
        dsimp only at open_
        rw [if_pos fatal] at open_
        have nonzero : 0 < errno := of_decide_eq_true possible
        exact open_ (handleError_closes (c := c.write []) live (by omega))
      · dsimp only
        rw [if_neg fatal]
        apply opened.keep_expected opened.failedWrite own highWaterSet
        rw [if_neg (fun complete => unfinished _ complete.2)]
  · rw [if_neg direct]
    apply opened.keep_expected opened own highWaterSet
    rw [if_neg (fun complete => unfinished _ complete.2)]

theorem Open.handleWrite_tasks (opened : Open c sent contents) (writeCompleteSet : c.writeCompleteCallback = true)
    (live : c.state = .kConnected ∨ c.state = .kDisconnecting) {result : WriteResult}
    (possible : result.possible c.outputBuffer.readableBytes = true)
    (open_ : (c.handleWrite result).conn.state ≠ .kDisconnected) :
    (c.handleWrite result).tasks = expected mark ⟨c, sent⟩ ⟨(c.handleWrite result).conn, sent⟩ := by
  have quiet : ∀ {d : TcpConnection} {contents' : List UInt8}, Open d sent contents' →
      contents'.length ≤ contents.length → (d.syscalls ≠ c.syscalls → contents'.length ≠ 0) →
      expected mark ⟨c, sent⟩ ⟨d, sent⟩ = [] := by
    intro d contents' after le waiting
    rw [opened.expected_eq after, if_neg (fun both => waiting both.1 both.2), if_neg (by omega)]
    rfl
  unfold TcpConnection.handleWrite at open_ ⊢
  by_cases idle : c.state = .kDisconnected ∨ c.channel.isWriting = false
  · rw [if_pos idle]
    exact (quiet opened (Nat.le_refl _) (fun changed => absurd rfl changed)).symm
  · rw [if_neg idle] at open_ ⊢
    rw [not_or, Bool.not_eq_false] at idle
    have waiting : contents ≠ [] := opened.writing.mp idle.2
    have some : contents.length ≠ 0 := fun zero => waiting (List.length_eq_zero_iff.mp zero)
    match result, possible with
    | .wrote 0, _ => exact absurd (handleError_closes (c := c.write []) live (by decide)) open_
    | .failed errno, _ =>
      by_cases transient : errno = 0 ∨ errno = EAGAIN ∨ errno = EWOULDBLOCK ∨ errno = EINTR
      · have ignored : (c.write []).handleError errno = { conn := c.write [] } := if_pos transient
        dsimp only
        rw [ignored]
        exact (quiet opened.failedWrite (Nat.le_refl _) (fun _ => some)).symm
      · exact absurd (handleError_closes (c := c.write []) live transient) open_
    | .wrote (n + 1), possible =>
      have le : n + 1 ≤ contents.length := opened.carries.length ▸ of_decide_eq_true possible
      obtain ⟨_, after, calls⟩ := opened.flushed le
      rw [opened.carries.readable]
      have left : (c.outputBuffer.retrieve (n + 1)).readableBytes = (contents.drop (n + 1)).length :=
        (opened.carries.retrieve le).length
      have tasks : ((c.write (contents.take (n + 1))).flushed (n + 1)).tasks =
          if (contents.drop (n + 1)).length = 0 then [.writeComplete] else [] := by
        simp only [TcpConnection.flushed, TcpConnection.write, left, writeCompleteSet, ↓reduceIte]
        split <;> rfl
      have called : ((c.write (contents.take (n + 1))).flushed (n + 1)).conn.syscalls ≠ c.syscalls := by
        cases calls with
        | inl ends =>
          rw [ends.2.2, List.append_assoc]
          exact append_ne_self (List.cons_ne_nil _ _)
        | inr stays =>
          rw [stays.2]
          exact append_ne_self (List.cons_ne_nil _ _)
      have falls : (contents.drop (n + 1)).length ≤ contents.length := by
        rw [List.length_drop]
        omega
      show ((c.write (contents.take (n + 1))).flushed (n + 1)).tasks = expected mark ⟨c, sent⟩
        ⟨((c.write (contents.take (n + 1))).flushed (n + 1)).conn, sent⟩
      have uncrossed : ¬ (contents.length < mark ∧ mark ≤ (contents.drop (n + 1)).length) := by omega
      rw [tasks, opened.expected_eq after, if_neg uncrossed, List.append_nil]
      simp only [called, ne_eq, not_false_iff, true_and]

theorem closed_sendBuffer (off : c.state = .kDisconnected) (data : List UInt8) (result : WriteResult) :
    c.sendBuffer data result = { conn := c } := by
  simp [TcpConnection.sendBuffer, off]

/-- The user's settings are those the connection was set up with. -/
theorem reachable_settings (run : Reaches step Any (Session.initial name sockfd writeComplete highWater mark) s) :
    s.conn.writeCompleteCallback = writeComplete ∧ s.conn.highWaterMarkCallback = highWater ∧
    s.conn.highWaterMark = mark := by
  have same := SameSettings.run run
  exact ⟨same.writeComplete, same.highWater, same.mark⟩

theorem sendBuffer_notifies (run : Reaches step Any (Session.initial name sockfd true true mark) s) (some : data ≠ [])
    {result : WriteResult} (taken : step s (.sendBuffer data result) = Option.some t)
    (open_ : t.conn.state ≠ .kDisconnected) : (s.conn.sendBuffer data result).tasks = expected mark s t := by
  obtain ⟨writeCompleteSet, highWaterSet, own⟩ := reachable_settings run
  simp only [step] at taken
  split at taken
  · rename_i possible
    cases taken
    cases reachable_inv run with
    | closed off _ =>
      rw [closed_sendBuffer off] at open_
      exact absurd off open_
    | live contents live opened =>
      by_cases connected : s.conn.state = .kConnected
      · simp only [TcpConnection.sendBuffer, if_pos connected] at open_ ⊢
        exact opened.sendInLoop_tasks own writeCompleteSet highWaterSet live some possible open_
      · simp only [TcpConnection.sendBuffer, if_neg connected]
        rw [opened.expected_eq opened, if_neg (fun both => both.1 rfl), if_neg (by omega)]
        rfl
  · cases taken

/-- With both callbacks set, every message and every write event on an open connection queues exactly what the
    levels before and after it call for. In particular two warnings are separated by a fall below the mark. -/
theorem notifications_match_level (run : Reaches step Any (Session.initial name sockfd true true mark) s)
    {action : Action} (streams : Streams action) (taken : step s action = some t)
    (open_ : t.conn.state ≠ .kDisconnected) :
    s.tasks action = expected mark s t ∧
    ∀ u again v level level', Reaches step Any t u → Streams again → step u again = some v →
      v.conn.state ≠ .kDisconnected → Task.highWaterMark level ∈ s.tasks action →
      Task.highWaterMark level' ∈ u.tasks again → mark ≤ t.unsent ∧ u.unsent < mark := by
  have single : ∀ {s t : Session} {action : Action},
      Reaches step Any (Session.initial name sockfd true true mark) s → Streams action → step s action = some t →
      t.conn.state ≠ .kDisconnected → s.tasks action = expected mark s t := by
    intro s t action run streams taken open_
    cases action with
    | send data result =>
      have buffered : step s (.sendBuffer data result) = some t := by
        simp only [step, send_eq, if_neg (show data ≠ [] from streams)] at taken ⊢
        exact taken
      show (s.conn.send data result).tasks = _
      rw [send_eq, if_neg (show data ≠ [] from streams)]
      exact sendBuffer_notifies run streams buffered open_
    | sendBuffer data result => exact sendBuffer_notifies run streams taken open_
    | handleWrite result =>
      obtain ⟨writeCompleteSet, _, _⟩ := reachable_settings run
      simp only [step] at taken
      split at taken
      · rename_i possible
        cases taken
        cases reachable_inv run with
        | closed off _ =>
          rw [closed_handleWrite off] at open_
          exact absurd off open_
        | live contents live opened => exact opened.handleWrite_tasks writeCompleteSet live possible open_
      · cases taken
    | sendInLoop _ _ => cases streams
    | shutdown => cases streams
    | handleRead _ => cases streams
    | handleError _ => cases streams
    | handleClose => cases streams
    | connectDestroyed => cases streams
  have crossing : ∀ {s t : Session} {level : Nat}, Task.highWaterMark level ∈ expected mark s t →
      s.unsent < mark ∧ mark ≤ t.unsent := by
    intro s t level member
    unfold expected at member
    cases List.mem_append.mp member with
    | inl completion =>
      split at completion
      · cases List.mem_singleton.mp completion
      · cases completion
    | inr warning =>
      split at warning
      · rename_i crossed
        exact crossed
      · cases warning
  refine ⟨single run streams taken open_, ?_⟩
  intro u again v level level' further streams' taken' open' warned warned'
  rw [single run streams taken open_] at warned
  rw [single ((run.next trivial taken).trans further) streams' taken' open'] at warned'
  exact ⟨(crossing warned).2, (crossing warned').1⟩

/-- Two bytes wait when three more are sent, which passes the mark of four. -/
theorem notifications_match_level_passed : ∃ s t : Session, step s (.send [4, 5, 6] (.wrote 0)) = some t ∧
    s.unsent = 2 ∧ t.unsent = 5 ∧ s.tasks (.send [4, 5, 6] (.wrote 0)) = [.highWaterMark 5] ∧
    s.tasks (.send [4, 5, 6] (.wrote 0)) = expected 4 s t := by
  have ran : ((exec step (Session.initial [] 5 true true 4) [.send [1, 2, 3] (.wrote 1)]).bind fun s =>
      (step s (.send [4, 5, 6] (.wrote 0))).map fun t => (s.unsent, t.unsent, s.tasks (.send [4, 5, 6] (.wrote 0)),
        decide (t.conn.state = .kDisconnected))) = some (2, 5, [.highWaterMark 5], false) := by decide +kernel
  obtain ⟨s, reached, ran⟩ := Option.bind_eq_some_iff.mp ran
  obtain ⟨t, taken, facts⟩ := Option.map_eq_some_iff.mp ran
  simp only [Prod.mk.injEq, decide_eq_false_iff_not] at facts
  obtain ⟨before, after, tasks, open_⟩ := facts
  have some : Streams (.send [4, 5, 6] (.wrote 0)) := List.cons_ne_nil _ _
  exact ⟨s, t, taken, before, after, tasks, (notifications_match_level (exec_reaches reached) some taken open_).1⟩

end Hvnetpp.Tcp
