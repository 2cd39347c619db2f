import Hvnetpp.Reactor.Accounts

namespace Hvnetpp.Reactor

open Machine Server Tcp

variable {w v u : World} {id : Nat} {conn : TcpConnection}

theorem Accounted.handleEvent (accounted : Accounted w) (ref : ChannelRef) (revents : Revents) :
    Sheds w (w.handleEvent ref revents) := by
  have same : Sheds w w := (Still.refl none w).sheds accounted
  have user : Sheds w (w.push (.user none)) := (Still.push w (.user none) fun _ none => nomatch none).sheds accounted
  unfold World.handleEvent
  split
  · cases ref with
    | connection id =>
      dsimp only
      split
      · exact same
      · rename_i conn found
        have pushed : Still none w (w.push (.event id revents.callbacks)) := Still.push w _ fun _ none => nomatch none
        split
        · exact pushed.trans_sheds
            ((pushed.accounted accounted).reply found (.handleClose conn) (.handleClose conn) fun _ => rfl)
        · exact pushed.sheds accounted
    | acceptor server =>
      dsimp only
      split
      · exact (Still.push w (.accepting server) fun _ none => nomatch none).sheds accounted
      · exact same
    | udp socket =>
      dsimp only
      split
      · exact user
      · exact same
    | loop => exact user
  · exact accounted.untouched rfl rfl rfl rfl rfl rfl

theorem runCallback_steady (conn : TcpConnection) (io : Io) (next : EventCallback) :
    Steady conn (World.runCallback conn io next).conn := by
  cases next with
  | error => exact .handleSocketError conn _
  | read => exact .handleRead conn _
  | write => exact .handleWrite conn _

theorem Accounted.resume (accounted : Accounted w) {io : Io} (plain : w.accepting = none)
    (taken : w.resume io = some v) : Sheds w v := by
  unfold World.resume at taken
  split at taken
  · rename_i stack
    cases taken
    exact (Still.pop stack rfl (fun _ other => nomatch other) (fun _ other => nomatch other)).sheds accounted
  · rename_i id next rest below stack
    obtain ⟨conn, found, rfl⟩ := Option.map_eq_some_iff.mp taken
    have turned : Still none w { w with stack := .event id rest :: below } :=
      Still.retop stack (fun _ none => nomatch none) (fun _ none => nomatch none) (fun _ other => nomatch other)
        (fun _ other => nomatch other)
    exact turned.trans_sheds ((turned.accounted accounted).reply found (runCallback_kept conn io next)
      (runCallback_steady conn io next) (runCallback_closes conn io next))
  · rename_i id below stack
    obtain ⟨conn, found, rfl⟩ := Option.map_eq_some_iff.mp taken
    have popped : Still none w w.pop :=
      Still.pop stack rfl (fun _ other => nomatch other) (fun _ other => nomatch other)
    exact popped.trans_sheds ((popped.accounted accounted).closeCallback found)
  · rename_i id below stack
    obtain ⟨conn, found, rfl⟩ := Option.map_eq_some_iff.mp taken
    have off : conn.state = .kDisconnected :=
      (accounted.ended id ⟨_, stack ▸ List.mem_cons_self, List.mem_cons_self⟩).2 conn found
    have popped : Still (some id) w w.pop := by
      apply Still.pop stack rfl
      · intro other same
        cases same
        rfl
      · exact fun _ other => nomatch other
    have destroyed := accounted.connectDestroyed found popped rfl rfl rfl rfl fun _ own => own
    rw [World.connectDestroyed, if_neg (not_not.mpr off)] at destroyed
    exact destroyed
  · rename_i stack
    cases taken
    exact (Still.pop stack rfl (fun _ other => nomatch other) (fun _ other => nomatch other)).sheds accounted
  · rename_i id rest below stack
    obtain ⟨conn, found, rfl⟩ := Option.map_eq_some_iff.mp taken
    have shortened : Still (some id) w { w with stack := .destructor rest :: below } := by
      apply Still.retop stack
      · exact fun _ none => nomatch none
      · intro other member different
        rcases List.mem_cons.mp member with rfl | later
        · exact absurd rfl different
        · exact later
      · exact fun _ other => nomatch other
      · exact fun _ other => nomatch other
    exact accounted.connectDestroyed found shortened rfl rfl rfl rfl fun _ none => nomatch none
  · rename_i server below stack
    rw [World.accepting, stack] at plain
    cases plain
  · cases taken
  · cases taken

theorem Accounted.callConn (accounted : Accounted w) {operation : TcpConnection → Reply}
    (kept : ∀ conn, Kept conn (operation conn).conn) (steady : ∀ conn, Steady conn (operation conn).conn)
    (closes : ∀ conn, (operation conn).next = .closing → (operation conn).conn.state = .kDisconnected)
    (taken : w.callConn id operation = some v) : Sheds w v := by
  unfold World.callConn at taken
  split at taken
  · obtain ⟨conn, found, rfl⟩ := Option.map_eq_some_iff.mp taken
    exact accounted.reply found (kept conn) (steady conn) (closes conn)
  · cases taken

/-- The step neither makes, starts or destroys a server nor goes on with `handleRead` of an acceptor. -/
def Plain (w : World) : Action → Prop
  | .call (.createServer _) | .call (.start _) | .call (.destroyServer _) => False
  | .resume _ => w.accepting = none
  | .poll _ | .dispatch | .finish | .drain _ _ | .release _ | .sendElsewhere _ _ | .shutdownElsewhere _ | .call .ret
  | .call (.hold _) | .call (.send _ _ _) | .call (.sendBuffer _ _ _) | .call (.shutdown _) | .call .queueInLoop
  | .call .createUdp | .call (.startReceive _) | .call (.stopReceive _) | .call (.destroyUdp _) => True

instance (w : World) (action : Action) : Decidable (Plain w action) :=
  match action with
  | .call (.createServer _) | .call (.start _) | .call (.destroyServer _) => isFalse fun no => no
  | .resume _ => inferInstanceAs (Decidable (w.accepting = none))
  | .poll _ | .dispatch | .finish | .drain _ _ | .release _ | .sendElsewhere _ _ | .shutdownElsewhere _ | .call .ret
  | .call (.hold _) | .call (.send _ _ _) | .call (.sendBuffer _ _ _) | .call (.shutdown _) | .call .queueInLoop
  | .call .createUdp | .call (.startReceive _) | .call (.stopReceive _) | .call (.destroyUdp _) => isTrue trivial

theorem Accounted.userCall (accounted : Accounted w) {frame : Option Nat} {below : List Frame}
    (stack : w.stack = .user frame :: below) {call : UserCall} (plain : Plain w (.call call))
    (taken : w.userCall call = some v) : Sheds w v := by
  cases call <;> simp only [World.userCall] at taken
  case ret =>
    cases taken
    have popped : Still none w w.pop := by
      apply Still.pop stack rfl
      · rintro _ ⟨⟩
      · rintro _ ⟨⟩
    exact popped.sheds accounted
  case hold id =>
    split at taken
    · cases taken
      exact accounted.untouched rfl rfl rfl rfl rfl rfl
    · cases taken
  case destroyUdp socket =>
    split at taken
    · cases taken
      have dropped : Sheds w { w with udps := Function.update w.udps socket none } :=
        accounted.untouched rfl rfl rfl rfl rfl rfl
      exact dropped.trans_still (.enqueue _ [.keepUdp socket])
    · cases taken
  case send id data result =>
    exact accounted.callConn (fun conn => .send conn data result) (fun conn => .send conn data result)
      (fun conn => (Legal.send conn data result).closes) taken
  case sendBuffer id data result =>
    exact accounted.callConn (fun conn => .sendBuffer conn data result) (fun conn => .sendBuffer conn data result)
      (fun conn => (Legal.sendBuffer conn data result).closes) taken
  case shutdown id => exact accounted.callConn Kept.shutdown Steady.shutdown (fun _ next => by cases next) taken
  case queueInLoop =>
    cases taken
    exact (Still.enqueue w [.user]).sheds accounted
  case createServer name | start server | destroyServer owner => exact plain.elim
  case createUdp =>
    cases taken
    exact accounted.untouched rfl rfl rfl rfl rfl rfl
  case startReceive socket | stopReceive socket =>
    obtain ⟨channel, _, rfl⟩ := Option.map_eq_some_iff.mp taken
    exact accounted.untouched rfl rfl rfl rfl rfl rfl

/-- The functor is taken out of the queue and executed. -/
theorem Accounted.drain (accounted : Accounted w) {functor : Functor} {io : Io}
    (taken : { w with queue := w.queue.erase functor }.run io functor = some v) : Sheds w v := by
  have dequeued : (∀ id, functor ≠ .connectDestroyed id) → Still none w { w with queue := w.queue.erase functor } :=
    fun other => Still.dequeue w functor fun id same => absurd same (other id)
  cases functor <;> simp only [World.run] at taken
  case connectDestroyed id =>
    obtain ⟨conn, found, rfl⟩ := Option.map_eq_some_iff.mp taken
    apply accounted.connectDestroyed found _ rfl rfl rfl rfl fun _ own => own
    apply Still.dequeue w
    intro other same
    cases same
    rfl
  case send id data =>
    obtain ⟨conn, found, rfl⟩ := Option.map_eq_some_iff.mp taken
    have still := dequeued (by rintro _ ⟨⟩)
    exact still.trans_sheds ((still.accounted accounted).reply found (.sendBuffer conn data _)
      (.sendBuffer conn data _) (Legal.sendBuffer conn data _).closes)
  case shutdown id =>
    obtain ⟨conn, found, rfl⟩ := Option.map_eq_some_iff.mp taken
    have still := dequeued (by rintro _ ⟨⟩)
    exact still.trans_sheds ((still.accounted accounted).steady found (.shutdown conn) (.shutdown conn))
  case task id task =>
    cases taken
    have still := dequeued (by rintro _ ⟨⟩)
    exact (still.trans (Still.push _ (.user (some id)) (List.forall_mem_nil _))).sheds accounted
  case keepAcceptor server | keepUdp socket =>
    cases taken
    exact (dequeued (by rintro _ ⟨⟩)).sheds accounted
  case user =>
    cases taken
    have still := dequeued (by rintro _ ⟨⟩)
    exact (still.trans (Still.push _ (.user none) (List.forall_mem_nil _))).sheds accounted

theorem Accounted.elsewhere (accounted : Accounted w) {functor : Functor}
    (taken : w.elsewhere id functor = some v) : Sheds w v := by
  unfold World.elsewhere at taken
  split at taken
  · obtain ⟨conn, _, rfl⟩ := Option.map_eq_some_iff.mp taken
    split
    · exact (Still.enqueue w [functor]).sheds accounted
    · exact (Still.refl none w).sheds accounted
  · cases taken

theorem Accounted.move (accounted : Accounted w) {action : Action} (plain : Plain w action)
    (taken : w.move action = some v) : Sheds w v := by
  have phased : ∀ phase, Still none w { w with phase := phase } := fun _ => .of_eq rfl rfl rfl rfl rfl rfl
  cases action <;> simp only [World.move] at taken
  case poll batch =>
    split at taken
    · cases taken
      exact (phased _).sheds accounted
    · cases taken
  case dispatch =>
    split at taken
    · cases taken
      exact (phased _).trans_sheds (((phased _).accounted accounted).handleEvent _ _)
    · cases taken
  case resume io => exact accounted.resume plain taken
  case call call =>
    split at taken
    · rename_i stack
      exact accounted.userCall stack plain taken
    · cases taken
  case finish =>
    split at taken
    · cases taken
      exact (phased _).sheds accounted
    · cases taken
      exact (phased _).sheds accounted
    · cases taken
  case drain functor io =>
    split at taken
    · exact accounted.drain taken
    · cases taken
  case release id =>
    split at taken
    · cases taken
      exact accounted.untouched rfl rfl rfl rfl rfl rfl
    · cases taken
  case sendElsewhere id data => exact accounted.elsewhere taken
  case shutdownElsewhere id => exact accounted.elsewhere taken

theorem Accounted.initial : Accounted World.initial where
  bound _ _ := rfl
  fresh _ _ := rfl
  sound _ _ found := nomatch found
  retired _ _ found := nomatch found
  ended := by
    rintro id ⟨frame, member, ends⟩
    cases List.mem_singleton.mp member
    cases ends
  names _ _ _ _ _ found := nomatch found
  due _ _ found := nomatch found

theorem Mapped.lists (mapped : Mapped w id conn) : Lists w id := by
  obtain ⟨owner, server, _, known, listed⟩ := mapped
  exact ⟨owner, server, conn.name, known, listed⟩

theorem Tracked.holds (tracked : Tracked w id) : Holds w id := by
  rcases tracked with ⟨frame, member, leaves⟩ | waits | destroys
  · exact .inr (.inr (.inl ⟨frame, member, frame.leaving_subset id leaves⟩))
  · exact .inr (.inl ⟨_, waits, rfl⟩)
  · exact .inr (.inr (.inl ⟨_, destroys, List.mem_singleton_self id⟩))

theorem descriptor_of_closed (closed : conn.socketFd < 0) : conn.descriptor = none :=
  if_neg (Int.not_le.mpr closed)

/-- What nobody holds any more has no descriptor left to close. -/
theorem Accounted.collect_descriptor (accounted : Accounted w) (id : Nat) :
    w.collect.descriptor id = w.descriptor id := by
  unfold World.descriptor
  simp only [World.collect]
  split
  · rfl
  · rename_i unheld
    cases found : w.conns id with
    | none => rfl
    | some conn =>
      have closed : conn.socketFd < 0 := by
        by_contra opened
        apply unheld
        rw [held_iff accounted.bound]
        rcases accounted.due id conn found (Int.not_lt.mp opened) with mapped | tracked
        · exact .inl mapped.lists
        · exact tracked.holds
      exact (descriptor_of_closed closed).symm

theorem Accounted.collect (accounted : Accounted w) : Accounted w.collect := by
  have kept : ∀ id conn, w.collect.conns id = some conn → w.conns id = some conn := by
    intro id conn present
    simp only [World.collect] at present
    split at present
    · exact present
    · cases present
  refine { accounted with fresh := ?_, sound := ?_, retired := ?_, ended := ?_, names := ?_, due := ?_ }
  · intro id new
    simp only [World.collect, accounted.fresh id new, ite_self]
  · exact fun id conn present => accounted.sound id conn (kept id conn present)
  · exact fun id conn present => accounted.retired id conn (kept id conn present)
  · intro id ends
    obtain ⟨less, off⟩ := accounted.ended id ends
    exact ⟨less, fun conn present => off conn (kept id conn present)⟩
  · exact fun owner id other conn conn' present present' =>
      accounted.names owner id other conn conn' (kept id conn present) (kept other conn' present')
  · exact fun id conn present => accounted.due id conn (kept id conn present)

theorem Accounted.createServer (accounted : Accounted w) (name : Bytes) :
    Accounted { w with servers := Function.update w.servers w.nextServer (some (.create name)),
                       nextServer := w.nextServer + 1 } := by
  have unknown : w.servers w.nextServer = none := accounted.bound _ (Nat.le_refl _)
  refine { accounted with bound := ?_, due := ?_ }
  · intro owner new
    simp only at new ⊢
    rw [Function.update_of_ne (by omega)]
    exact accounted.bound owner (by omega)
  · intro id conn found opened
    rcases accounted.due id conn found opened with ⟨owner, server, own, known, listed⟩ | tracked
    · have differs : owner ≠ w.nextServer := by
        rintro rfl
        rw [unknown] at known
        cases known
      exact .inl ⟨owner, server, own, (Function.update_of_ne differs ..).trans known, listed⟩
    · exact .inr tracked

theorem destroyServer_frame (w : World) (owner : Nat) (server : TcpServer Nat) :
    (w.destroyServer owner server).conns = w.conns ∧ (w.destroyServer owner server).nextConn = w.nextConn ∧
      (w.destroyServer owner server).nextServer = w.nextServer ∧
      (w.destroyServer owner server).servers = Function.update w.servers owner none ∧
      (w.destroyServer owner server).stack = .destructor (server.connections.entries.map Sigma.snd) :: w.stack := by
  unfold World.destroyServer World.dropAcceptor
  split <;> exact ⟨rfl, rfl, rfl, rfl, rfl⟩

/-- `~TcpServer` on the loop thread leaves the connections to its loop. -/
theorem Accounted.destroyServer {owner : Nat} {server : TcpServer Nat} (accounted : Accounted w)
    (known : w.servers owner = some server) : Accounted (w.destroyServer owner server) := by
  have moved : Accounted ({ w with servers := Function.update w.servers owner none }.push
      (.destructor (server.connections.entries.map Sigma.snd))) := by
    refine { accounted with bound := ?_, ended := ?_, due := ?_ }
    · intro lister new
      by_cases same : lister = owner
      · rw [same]
        exact Function.update_self ..
      · exact (Function.update_of_ne same ..).trans (accounted.bound lister new)
    · rintro id ⟨frame, member, ends⟩
      rcases List.mem_cons.mp member with rfl | below
      · cases ends
      · exact accounted.ended id ⟨frame, below, ends⟩
    · intro id conn found opened
      rcases accounted.due id conn found opened with ⟨lister, before, own, knownBefore, listed⟩ | tracked
      · by_cases same : lister = owner
        · subst same
          cases known.symm.trans knownBefore
          exact .inr (.inl ⟨_, List.mem_cons_self, (mem_values server).mpr ⟨conn.name, listed⟩⟩)
        · exact .inl ⟨lister, before, own, (Function.update_of_ne same ..).trans knownBefore, listed⟩
      · have pushed : Still none w (w.push (.destructor (server.connections.entries.map Sigma.snd))) :=
          Still.push w _ fun _ none => nomatch none
        exact .inr (pushed.tracked id (Option.some_ne_none id).symm tracked)
  unfold World.destroyServer World.dropAcceptor
  split
  · exact moved
  · have queued := (Still.enqueue _ [.keepAcceptor owner]).accounted moved
    exact Sheds.accounted (queued.untouched rfl rfl rfl rfl rfl rfl)

/-- `handleRead` of an acceptor returns. -/
theorem Accounted.leaveRead {server : Nat} {below : List Frame} (accounted : Accounted w)
    (stack : w.stack = .accepting server :: below) : Accounted w.pop := by
  rw [pop_eq stack]
  refine { accounted with ended := ?_, due := ?_ }
  · rintro id ⟨frame, member, ends⟩
    exact accounted.ended id ⟨frame, stack ▸ List.mem_cons_of_mem _ member, ends⟩
  · intro id conn found opened
    rcases accounted.due id conn found opened with mapped | tracked
    · exact .inl mapped
    · exact .inr (tracked.restack stack (fun none => nomatch none) fun other => nomatch other)

theorem Accounted.newConnection {owner : Nat} {server : TcpServer Nat} (accounted : Accounted w)
    (known : w.servers owner = some server) (unused : Unused w owner) (sockfd : Nat) :
    Accounted (w.newConnection owner sockfd) := by
  have entered : Accounted (w.entered owner sockfd server) := by
    have free : ∀ (id : Nat) (d e : TcpConnection), w.conns id = some e → e.closeCallback = some owner →
        d.name = server.nextName → d.name ≠ e.name := by
      intro id d e old own named same
      exact unused server known id (accounted.lt_next old) e old own (same.symm.trans named)
    refine { bound := ?_, fresh := ?_, sound := ?_, retired := ?_, ended := ?_, names := ?_, due := ?_ }
    · intro lister new
      refine (Function.update_of_ne ?_ ..).trans (accounted.bound lister new)
      rintro rfl
      rw [accounted.bound lister new] at known
      cases known
    · intro id new
      have later : w.nextConn + 1 ≤ id := new
      exact (setConn_other _ _ (by omega)).trans (accounted.fresh id (by omega))
    · intro id d present
      rcases entered_conns present with ⟨_, _, _, sound⟩ | ⟨_, found⟩
      · exact sound
      · exact accounted.sound id d found
    · intro id d present
      rcases setConn_conns present with ⟨_, rfl⟩ | ⟨_, found⟩
      · intro closed
        exact absurd closed (Int.not_lt.mpr (Int.natCast_nonneg sockfd))
      · exact accounted.retired id d found
    · intro id ends
      obtain ⟨less, off⟩ := accounted.ended id ends
      refine ⟨Nat.lt_succ_of_lt less, ?_⟩
      intro d present
      rcases entered_conns present with ⟨rfl, _⟩ | ⟨_, found⟩
      · exact absurd less (Nat.lt_irrefl _)
      · exact off d found
    · intro lister first second c e presentC presentE ownC ownE same
      rcases entered_conns presentC with ⟨rfl, named, owns, _⟩ | ⟨_, oldC⟩
      · rcases entered_conns presentE with ⟨rfl, _, _, _⟩ | ⟨_, oldE⟩
        · rfl
        · cases owns.symm.trans ownC
          exact absurd same (free second c e oldE ownE named)
      · rcases entered_conns presentE with ⟨rfl, named, owns, _⟩ | ⟨_, oldE⟩
        · cases owns.symm.trans ownE
          exact absurd same.symm (free first e c oldC ownC named)
        · exact accounted.names lister first second c e oldC oldE ownC ownE same
    · intro id d present opened
      rcases entered_conns present with ⟨rfl, named, owns, _⟩ | ⟨_, found⟩
      · refine .inl ⟨owner, server.newConnection w.nextConn, owns, Function.update_self .., ?_⟩
        rw [named]
        exact AList.lookup_insert ..
      · rcases accounted.due id d found opened with ⟨lister, before, owns, knownBefore, listed⟩ | tracked
        · by_cases same : lister = owner
          · subst same
            cases known.symm.trans knownBefore
            have kept : d.name ≠ server.nextName := unused server known id (accounted.lt_next found) d found owns
            exact .inl ⟨lister, _, owns, Function.update_self .., (AList.lookup_insert_ne kept).trans listed⟩
          · exact .inl ⟨lister, before, owns, (Function.update_of_ne same ..).trans knownBefore, listed⟩
        · exact .inr tracked
  unfold World.newConnection
  rw [known]
  exact (Still.callback _ w.nextConn _).accounted entered

theorem newConnection_descriptor {owner : Nat} {server : TcpServer Nat} (known : w.servers owner = some server)
    (sockfd id : Nat) : (w.newConnection owner sockfd).descriptor id =
      if id = w.nextConn then some sockfd else w.descriptor id := by
  unfold World.newConnection
  rw [known]
  exact setConn_descriptor ..

end Hvnetpp.Reactor
